import CloudHands.Mail.ImapDialogue

/-!
# The messages of an IMAP connection

Line by line the parser stays with the dialogue exactly as long as the steps meet the condition.
An invariant carries the steps that do; a step that does not is seen in the state behind it.
-/

namespace CloudHands.Mail

open Lib Http

structure Reads (e : ImapEntry) (d : ImapDialogue) : Prop where
  held : Exact e d
  idle : d.appending = none
  seen : e.parserState.firstReplySeen = d.greeted
  multiline : e.parserState.multilineReply → d.greeted
  early : d.greeted = false → d.server = .line
  live : ∀ s, e.currSession = some s → s.done = false
  opened : ∀ c, e.currentCommand = some c → c ≠ .otherCmd → e.currSession.isSome
  free : d.server.taken = none → e.handed = none

theorem startsWith_iff {word : String} {line : CurrLine} :
    startsWith word line ↔ (bytesOf word).map toLower <+: line.data.map toLower := by
  rw [List.prefix_iff_eq_take]
  simp only [startsWith, strncaseEq, Bool.and_eq_true, decide_eq_true_eq, List.take_length,
    List.length_map, ← List.map_take]
  constructor
  · rintro ⟨-, h⟩
    exact h.symm
  · intro h
    refine ⟨?_, h.symm⟩
    have hlen := congrArg List.length h
    simp only [List.length_map, List.length_take] at hlen
    omega

theorem startsWith_eq_false {word word' : String} {line : CurrLine} (h : startsWith word line)
    (hne : ¬((bytesOf word).map toLower <+: (bytesOf word').map toLower) ∧
      ¬((bytesOf word').map toLower <+: (bytesOf word).map toLower)) :
    startsWith word' line = false := by
  rw [Bool.eq_false_iff]
  intro h'
  rcases List.prefix_or_prefix_of_prefix (startsWith_iff.1 h) (startsWith_iff.1 h') with hp | hp
  · exact hne.1 hp
  · exact hne.2 hp

theorem imapReadCommand_isSome (line : CurrLine) (e : ImapEntry) :
    (imapReadCommand line e).isSome = requestTaken line := by
  unfold imapReadCommand requestTaken
  cases imapText line with
  | none => rfl
  | some text =>
    dsimp only
    split_ifs with h₁ h₂ h₃ h₄ h₅
    · rw [startsWith_eq_false h₁ (by decide)]
      rfl
    · rw [startsWith_eq_false h₂ (by decide)]
      rfl
    · rw [startsWith_eq_false h₃ (by decide)]
      rfl
    · rw [startsWith_eq_false h₄ (by decide)]
      rfl
    · simp [imapParseCommandLogin, h₅]
    · simp [h₅]

structure SameData (e e' : ImapEntry) : Prop where
  parserState : e'.parserState = e.parserState
  currSession : e'.currSession = e.currSession
  stored : e'.stored = e.stored

theorem imapReadCommand_sameData {line : CurrLine} {e e' : ImapEntry}
    (h : imapReadCommand line e = some e') : SameData e e' := by
  unfold imapReadCommand at h
  split at h
  · cases h
  · dsimp only at h
    split_ifs at h
    · obtain rfl := Option.some.inj h
      exact ⟨rfl, rfl, rfl⟩
    · obtain rfl := Option.some.inj h
      exact ⟨rfl, rfl, rfl⟩
    · obtain rfl := Option.some.inj h
      exact ⟨rfl, rfl, rfl⟩
    · obtain rfl := Option.some.inj h
      exact ⟨rfl, rfl, rfl⟩
    · obtain ⟨e₁, he₁, rfl⟩ := Option.map_eq_some_iff.1 h
      obtain ⟨found, -, rfl⟩ := Option.map_eq_some_iff.1 he₁
      exact ⟨rfl, rfl, rfl⟩
    · obtain rfl := Option.some.inj h
      exact ⟨rfl, rfl, rfl⟩

theorem imapSession_live {e : ImapEntry} (hlive : ∀ s, e.currSession = some s → s.done = false)
    (line : CurrLine) :
    ∃ s, (imapSession e line).currSession = some s ∧ s.done = false ∧
      (imapSession e line).handed = e.handed ∧ (imapSession e line).stored = e.stored ∧
      (imapSession e line).parserState = e.parserState := by
  unfold imapSession
  cases hs : e.currSession with
  | none =>
    have hhanded : e.handed = none := by rw [MailSentry.handed, hs]; rfl
    rw [hhanded]
    exact ⟨mailSessionCreate, rfl, rfl, rfl, rfl, rfl⟩
  | some s =>
    have hdone := hlive s hs
    simp only [Option.all_some, hdone, Bool.false_and, Bool.false_eq_true, if_false]
    exact ⟨s, hs, hdone, trivial, trivial, trivial⟩

theorem ImapDialogue.command_eq_some {d d' : ImapDialogue} {line : CurrLine}
    (h : d.command line = some d') :
    d'.greeted = d.greeted ∧ d'.appending = d.appending ∧ d'.server = d.server ∧
      d'.finished = d.finished := by
  simp only [ImapDialogue.command, Option.ite_none_left_eq_some] at h
  obtain ⟨-, h⟩ := h
  split at h
  · obtain rfl := Option.some.inj h
    exact ⟨rfl, rfl, rfl, rfl⟩
  · cases h
  · cases h
  · obtain rfl := Option.some.inj h
    exact ⟨rfl, rfl, rfl, rfl⟩

section

variable {decFails : List CurrLine → Bool} {e e' : ImapEntry} {d d' : ImapDialogue}
  {line : CurrLine}

theorem request_eq (h : Reads e d) :
    imapProcessRequest decFails e line = imapReadCommand line (imapSession e line) := by
  obtain ⟨-, -, -, -, -, hstate⟩ := imapSession_live h.live line
  have happend : e.parserState.dataAppend = false := by
    rw [h.held.appendMode, h.idle]
    rfl
  simp [imapProcessRequest, hstate, happend]

theorem request_reads (h : Reads e d) (hd : d.client line = some d') (htaken : requestTaken line) :
    ∃ e', imapProcessRequest decFails e line = some e' ∧ Reads e' d' := by
  obtain ⟨s, hs, hdone, hhanded, hstored, hstate⟩ := imapSession_live h.live line
  rw [ImapDialogue.client, h.idle] at hd
  obtain ⟨hgreeted, hidle, hserver, hfinished⟩ := ImapDialogue.command_eq_some hd
  rw [← imapReadCommand_isSome line (imapSession e line)] at htaken
  obtain ⟨e', he'⟩ := Option.isSome_iff_exists.1 htaken
  obtain ⟨hstate', hcurr', hstored'⟩ := imapReadCommand_sameData he'
  rw [hstate] at hstate'
  rw [hs] at hcurr'
  rw [hstored] at hstored'
  have hhanded' : e'.handed = e.handed := by
    rw [← hhanded, MailSentry.handed, MailSentry.handed, hcurr', hs]
  refine ⟨e', (request_eq h).trans he', ?_⟩
  exact
    { held :=
        { fetchMode := by rw [hstate', hserver, h.held.fetchMode]
          dataLines := by rw [hstate', hserver]; exact h.held.dataLines
          appendMode := by rw [hstate', hidle, h.held.appendMode]
          stored := by rw [hstored', hfinished, h.held.stored]
          fetched := by rw [hhanded', hserver]; exact h.held.fetched
          appended := by rw [hhanded', hidle]; exact h.held.appended }
      idle := hidle.trans h.idle
      seen := by rw [hstate', hgreeted, h.seen]
      multiline := by rw [hstate', hgreeted]; exact h.multiline
      early := by rw [hgreeted, hserver]; exact h.early
      live := by
        intro s' hs'
        rw [hcurr'] at hs'
        obtain rfl := Option.some.inj hs'
        exact hdone
      opened := by simp [hcurr']
      free := by rw [hserver, hhanded']; exact h.free }

structure Outside (d d' : ImapDialogue) (line : CurrLine) : Prop where
  finished : d'.finished = d.finished
  greeted : d'.greeted = true
  taken : d'.server.taken = none ∨ d.greeted ∧ d'.server.taken = some []
  appending : d'.appending.isSome = (decide (d.server = .line) && line.data.head? = some 43)

theorem ImapDialogue.readingAfter_taken (d : ImapDialogue) (text : List UInt8) :
    (d.readingAfter text).taken = none ∨ (d.readingAfter text).taken = some [] := by
  unfold ImapDialogue.readingAfter
  split
  · exact .inl rfl
  · split
    · exact .inr rfl
    · exact .inl rfl

theorem serverLine_outside (h : Reads e d) (htaken : d.server.taken = none)
    (hd : d.serverLine line = some d') : Outside d d' line := by
  have hidle := h.idle
  unfold ImapDialogue.serverLine at hd
  cases hserver : d.server with
  | message left taken => simp [hserver, ImapReading.taken] at htaken
  | literal left =>
    have hgreeted : d.greeted = true := by
      by_contra hnot
      simpa [hserver] using h.early (by simpa using hnot)
    rw [hserver] at hd
    dsimp only at hd
    split at hd
    · obtain rfl := Option.some.inj hd
      exact ⟨rfl, hgreeted, .inl rfl, by simp [hserver, hidle]⟩
    · obtain rfl := Option.some.inj hd
      exact ⟨rfl, hgreeted, (d.readingAfter_taken _).imp_right (.intro hgreeted),
        by simp [hserver, hidle]⟩
  | line =>
    rw [hserver] at hd
    dsimp only [ImapDialogue.reply] at hd
    split_ifs at hd with hearly hstar huntagged hplus hanswer hlast
    · obtain rfl := Option.some.inj hd
      exact ⟨rfl, rfl, .inl (by rw [hserver]; rfl), by simp [hidle, hstar]⟩
    · obtain rfl := Option.some.inj hd
      have hgreeted : d.greeted = true := by simpa using hearly
      exact ⟨rfl, hgreeted, (d.readingAfter_taken _).imp_right (.intro hgreeted),
        by simp [hidle, huntagged]⟩
    · obtain ⟨n, -, rfl⟩ := Option.map_eq_some_iff.1 hd
      have hgreeted : d.greeted = true := by simpa using hearly
      exact ⟨rfl, hgreeted, .inl (by rw [hserver]; rfl), by simp [hserver, hplus]⟩
    all_goals
      obtain rfl := Option.some.inj hd
      have hgreeted : d.greeted = true := by simpa using hearly
      exact ⟨rfl, hgreeted, .inl (by rw [hserver]; rfl), by simp [hidle, hplus]⟩

/-- The continuation of an `APPEND` command is noted unless a multi-line reply goes on. -/
def continues (e : ImapEntry) (line : CurrLine) : Bool :=
  !e.parserState.multilineReply && line.data.head? = some 43 && e.currentCommand = some .append

theorem continues_iff :
    continues e line ↔ e.parserState.multilineReply = false ∧ line.data.head? = some 43 ∧
      e.currentCommand = some .append := by
  simp [continues, and_assoc]

theorem parserState_update (h : Reads e d) (htaken : d.server.taken = none) (line : CurrLine) :
    (imapUpdateMultiReplyState line e).parserState =
      ⟨continues e line, false, d.greeted && line.data.head? = some 42, true⟩ := by
  have happend : e.parserState.dataAppend = false := by
    rw [h.held.appendMode, h.idle]
    rfl
  have hfetch : e.parserState.dataUidFetch = false := by
    rw [h.held.fetchMode, htaken]
    rfl
  have hseen := h.seen
  have hmultiline := h.multiline
  rcases e with ⟨sentry, ⟨append, fetch, multiline, seen⟩, cmd, st⟩
  dsimp only at happend hfetch hseen hmultiline
  subst happend hfetch hseen
  simp only [imapUpdateMultiReplyState, continues]
  by_cases hstar : line.data.head? = some 42
  · have hplus : line.data.head? ≠ some 43 := by simp [hstar]
    cases multiline <;> cases hg : d.greeted <;> simp_all
  · cases multiline with
    | true => simp [hmultiline rfl, hstar]
    | false =>
      cases hg : d.greeted <;> by_cases hplus : line.data.head? = some 43 <;>
        by_cases hcmd : cmd = some .append <;> simp [hstar, hplus, hcmd]

theorem imapTakeReply_of_not_append (hoff : e.parserState.dataAppend = false) :
    imapTakeReply line e =
      if e.currentCommand = some .starttls ∧ imapGetReplyCode line = some .ok then none
      else some e := by
  unfold imapTakeReply
  cases imapGetReplyCode line with
  | none => simp
  | some code =>
    by_cases hcmd : e.currentCommand = some .starttls <;> simp [hcmd, hoff]

theorem imapSetMimeDecodeComplete_stored {s : MailSession} (hs : e.currSession = some s) :
    (imapSetMimeDecodeComplete e).currSession = none ∧
      (imapSetMimeDecodeComplete e).stored.map (·.session.bytes) =
        e.stored.map (·.session.bytes) ++ [e.handed] := by
  refine ⟨rfl, ?_⟩
  simp [imapSetMimeDecodeComplete, MailSentry.store, MailSentry.mapSession, MailSentry.mapMime, hs,
    MailSentry.storedMail, MailSentry.handed, MailSession.bytes, Function.comp_def,
    MimeDecState.parseComplete]

/-- A reply code ends the data mode of `APPEND`. -/
theorem imapTakeReply_of_append {s : MailSession} {code : ImapRet}
    (hcode : imapGetReplyCode line = some code) (hcmd : e.currentCommand = some .append)
    (hon : e.parserState.dataAppend = true) (hs : e.currSession = some s) :
    ∃ e', imapTakeReply line e = some e' ∧ e'.currentCommand = some .otherCmd ∧
      e'.stored.map (·.session.bytes) = e.stored.map (·.session.bytes) ++ [e.handed] := by
  refine ⟨_, by simp only [imapTakeReply, hcode, hcmd, hon]; rfl, rfl, ?_⟩
  exact (imapSetMimeDecodeComplete_stored (e := { e with
    parserState := { e.parserState with dataAppend := false } }) hs).2

structure Looked (e e' : ImapEntry) (body : Bool) : Prop where
  parserState : e'.parserState = { e.parserState with dataUidFetch := body }
  currentCommand : e'.currentCommand = e.currentCommand
  stored : e'.stored = e.stored
  handed : e'.handed = if body then some [] else none
  live : ∀ s, e'.currSession = some s → s.done = false
  opened : e'.currSession.isSome = e.currSession.isSome

theorem imapLookForBody_looked (hoff : e.parserState.dataUidFetch = false)
    (happend : e.parserState.dataAppend = false) (hfree : e.handed = none)
    (hlive : ∀ s, e.currSession = some s → s.done = false)
    (hopened : e.currentCommand = some .uidFetch → e.currSession.isSome) (line : CurrLine) :
    Looked e (imapLookForBody line e)
      (e.currentCommand = some .uidFetch && (imapBodyLen line).isSome) := by
  unfold imapLookForBody
  by_cases hcmd : e.currentCommand = some .uidFetch
  · rw [if_pos hcmd]
    dsimp only
    cases hlen : imapBodyLen line with
    | none =>
      simp only [Option.isSome_none, happend, Bool.or_false, Bool.false_eq_true, if_false]
      exact ⟨by simp [happend], rfl, rfl, by simpa using hfree, hlive, rfl⟩
    | some len =>
      obtain ⟨s, hs⟩ := Option.isSome_iff_exists.1 (hopened hcmd)
      have hmime : s.mimeState = none := by
        simpa [MailSentry.handed, hs, MailSession.bytes] using hfree
      simp only [Option.isSome_some, Bool.true_or, if_true, imapCreateNewMimeParserState, hs,
        Option.any_some, hmime, Option.isSome_none, Bool.false_eq_true, if_false,
        MailSentry.mapSession, Option.map_some]
      refine ⟨by simp [hcmd], rfl, rfl, ?_, ?_, by simp [hs]⟩
      · simp [hcmd, MailSentry.handed, MailSession.bytes, mimeDecInitParser]
      · intro s' hs'
        obtain rfl := Option.some.inj hs'
        exact hlive s hs
  · rw [if_neg hcmd]
    have hnot : (e.currentCommand = some .uidFetch && (imapBodyLen line).isSome) = false := by
      simp [hcmd]
    rw [hnot]
    exact ⟨by simp [← hoff], rfl, rfl, by simpa using hfree, hlive, rfl⟩

theorem looked_update (h : Reads e d) (htaken : d.server.taken = none)
    (hnot : continues e line = false) :
    Looked (imapUpdateMultiReplyState line e)
      (imapLookForBody line (imapUpdateMultiReplyState line e))
      (e.currentCommand = some .uidFetch && (imapBodyLen line).isSome) := by
  have hstate := parserState_update h htaken line
  refine imapLookForBody_looked (e := imapUpdateMultiReplyState line e) ?_ ?_ (h.free htaken) h.live
    ?_ line
  · rw [hstate]
  · rw [hstate, hnot]
  · exact fun hcmd => h.opened _ hcmd (by decide)

theorem reply_eq (h : Reads e d) (htaken : d.server.taken = none)
    (hnot : continues e line = false) :
    imapProcessReply decFails e line =
      if !(d.greeted && line.data.head? = some 42) ∧ e.currentCommand = some .starttls ∧
          imapGetReplyCode line = some .ok then none
      else some (imapLookForBody line (imapUpdateMultiReplyState line e)) := by
  have hstate := parserState_update h htaken line
  have happend : (imapUpdateMultiReplyState line e).parserState.dataAppend = false := by
    rw [hstate, hnot]
  have hcmd : (imapUpdateMultiReplyState line e).currentCommand = e.currentCommand := rfl
  simp only [imapProcessReply, hstate, imapTakeReply_of_not_append happend, hcmd]
  cases d.greeted && decide (line.data.head? = some 42) with
  | true => simp
  | false =>
    by_cases htls : e.currentCommand = some .starttls ∧ imapGetReplyCode line = some .ok <;>
      simp [htls]

theorem replyTaken_iff (hd : d.serverLine line = some d') :
    replyTaken e d line ↔
      (line.data.head? = some 43 →
        ¬(d.server = .line ∨ e.parserState.multilineReply = false ∧
          e.currentCommand = some .append)) ∧
      (e.currentCommand = some .starttls → imapGetReplyCode line = some .ok →
        d.greeted ∧ line.data.head? = some 42) ∧
      (e.currentCommand = some .uidFetch && (imapBodyLen line).isSome) = d'.server.taken.isSome ∧
      (d'.server.taken.isSome → line.data.head? = some 42) := by
  simp only [replyTaken, hd, Option.any_some]
  cases hmsg : d'.server.taken.isSome <;> cases d.greeted <;> cases e.parserState.multilineReply <;>
    simp [and_assoc, or_assoc, imp_iff_not_or]

theorem reply_reads (h : Reads e d) (htaken : d.server.taken = none)
    (hd : d.serverLine line = some d') (hreply : replyTaken e d line) :
    ∃ e', imapProcessReply decFails e line = some e' ∧ Reads e' d' := by
  have hout := serverLine_outside h htaken hd
  obtain ⟨hplus, htls, hbody, hstar⟩ := (replyTaken_iff hd).1 hreply
  have hnot : continues e line = false := by
    rw [Bool.eq_false_iff]
    intro hcont
    obtain ⟨hmulti, hhead, hcmd⟩ := continues_iff.1 hcont
    exact hplus hhead (.inr ⟨hmulti, hcmd⟩)
  have hlooked := looked_update h htaken hnot
  have hstate := parserState_update h htaken line
  rw [hbody] at hlooked
  have hidle : d'.appending = none := by
    rw [← Option.not_isSome_iff_eq_none, hout.appending]
    simp only [Bool.and_eq_true, decide_eq_true_eq]
    exact fun hcont => hplus hcont.2 (.inl hcont.1)
  have hp : (imapLookForBody line (imapUpdateMultiReplyState line e)).parserState =
      ⟨false, d'.server.taken.isSome, d.greeted && line.data.head? = some 42, true⟩ := by
    rw [hlooked.parserState, hstate, hnot]
  refine ⟨_, (reply_eq h htaken hnot).trans (if_neg ?_), ?_⟩
  · rintro ⟨hline, hcmd, hcode⟩
    obtain ⟨hgreeted, hhead⟩ := htls hcmd hcode
    simp [hgreeted, hhead] at hline
  · exact
      { held :=
          { fetchMode := by rw [hp]
            dataLines := by
              intro hmsg
              have hhead := hstar hmsg
              rcases hout.taken with hnone | ⟨hgreeted, -⟩
              · simp [hnone] at hmsg
              · simp [hp, hgreeted, hhead]
            appendMode := by rw [hp, hidle]; rfl
            stored := by rw [hlooked.stored, hout.finished]; exact h.held.stored
            fetched := by
              intro hmsg
              rw [hlooked.handed, if_pos hmsg]
              rcases hout.taken with hnone | ⟨-, hsome⟩
              · simp [hnone] at hmsg
              · exact hsome.symm
            appended := by simp [hidle] }
        idle := hidle
        seen := by rw [hp, hout.greeted]
        multiline := fun _ => hout.greeted
        early := by simp [hout.greeted]
        live := hlooked.live
        opened := by
          rw [hlooked.currentCommand, hlooked.opened]
          exact h.opened
        free := fun hnone => by rw [hlooked.handed, hnone]; rfl }

theorem replyTaken_of_exact (h : Reads e d) (htaken : d.server.taken = none)
    (hd : d.serverLine line = some d') (he : imapProcessReply decFails e line = some e')
    (hexact : Exact e' d') : replyTaken e d line := by
  have hout := serverLine_outside h htaken hd
  have hstate := parserState_update h htaken line
  have hnot : continues e line = false := by
    rw [Bool.eq_false_iff]
    intro hcont
    obtain ⟨-, hhead, hcmd⟩ := continues_iff.1 hcont
    obtain ⟨s, hs⟩ := Option.isSome_iff_exists.1 (h.opened _ hcmd (by decide))
    have hline : imapProcessReply decFails e line =
        (imapTakeReply line (imapUpdateMultiReplyState line e)).map (imapLookForBody line) := by
      simp [imapProcessReply, hstate, hhead]
    rw [hline] at he
    obtain ⟨e₁, he₁, rfl⟩ := Option.map_eq_some_iff.1 he
    have hon : (imapUpdateMultiReplyState line e).parserState.dataAppend = true := by
      rw [hstate, hcont]
    cases hcode : imapGetReplyCode line with
    | none =>
      -- the line opens the data mode of `APPEND`, where no decoder is
      obtain rfl : _ = e₁ := by simpa [imapTakeReply, hcode] using he₁
      have hsame : imapLookForBody line (imapUpdateMultiReplyState line e) =
          imapUpdateMultiReplyState line e := if_neg (by simp [imapUpdateMultiReplyState, hcmd])
      rw [hsame] at hexact
      have hmode := hexact.appendMode.symm.trans hon
      have hnone : e.handed = d'.appending.map Prod.snd := hexact.appended hmode
      obtain ⟨m, hm⟩ := Option.isSome_iff_exists.1 hmode
      rw [h.free htaken, hm] at hnone
      cases hnone
    | some code =>
      -- the line also ends it, and a session without a decoder is stored
      obtain ⟨e₂, he₂, hcmd₂, hstored₂⟩ :=
        imapTakeReply_of_append (e := imapUpdateMultiReplyState line e) hcode hcmd hon hs
      obtain rfl := Option.some.inj (he₁.symm.trans he₂)
      have hsame : imapLookForBody line e₁ = e₁ := if_neg (by simp [hcmd₂])
      rw [hsame] at hexact
      have hstored := hexact.stored
      rw [hstored₂, hout.finished, ← h.held.stored] at hstored
      exact absurd hstored (by simp [imapUpdateMultiReplyState])
  have hlooked := looked_update h htaken hnot
  rw [reply_eq h htaken hnot] at he
  obtain ⟨hgo, he⟩ := Option.ite_none_left_eq_some.1 he
  obtain rfl := Option.some.inj he
  have hp := hlooked.parserState
  rw [hstate, hnot] at hp
  refine (replyTaken_iff hd).2 ⟨?_, ?_, ?_, ?_⟩
  · rintro hhead (hline | hcont)
    · have hmode := hexact.appendMode
      rw [hp, hout.appending, hline, hhead] at hmode
      cases hmode
    · rw [continues_iff.2 ⟨hcont.1, hhead, hcont.2⟩] at hnot
      cases hnot
  · intro hcmd hcode
    by_contra hline
    refine hgo ⟨?_, hcmd, hcode⟩
    simpa [imp_iff_not_or] using hline
  · have hmode := hexact.fetchMode
    rwa [hp] at hmode
  · intro hmsg
    have hmode := hexact.dataLines hmsg
    rw [hp] at hmode
    simp at hmode
    exact hmode.2

theorem CurrLine.bytes_ne_nil (line : CurrLine) : line.bytes ≠ [] := by
  unfold CurrLine.bytes
  split <;> simp

theorem message_eq {left : ℕ} {taken : List UInt8} (h : Reads e d)
    (hserver : d.server = .message left taken) :
    imapProcessReply decFails e line = imapProcessUidFetchData decFails line e := by
  have hmsg : d.server.taken.isSome := by rw [hserver]; rfl
  have hmulti := h.held.dataLines hmsg
  have hfetch := h.held.fetchMode.trans hmsg
  have hseen := h.seen.trans (h.multiline hmulti)
  have hsame : imapUpdateMultiReplyState line e = e := by
    simp [imapUpdateMultiReplyState, hmulti, hfetch, hseen]
  simp [imapProcessReply, hsame, hmulti, hfetch]

theorem message_session {left : ℕ} {taken : List UInt8} (h : Reads e d)
    (hserver : d.server = .message left taken) :
    ∃ s m, e.currSession = some s ∧ s.mimeState = some m ∧
      m.parsedLines.flatMap CurrLine.bytes = taken := by
  have hhanded := h.held.fetched (by rw [hserver]; rfl)
  rw [hserver] at hhanded
  obtain ⟨s, hs, hbytes⟩ := Option.bind_eq_some_iff.1 hhanded
  obtain ⟨m, hm, htaken⟩ := Option.map_eq_some_iff.1 hbytes
  exact ⟨s, m, hs, hm, htaken⟩

theorem messageEnd_reads {taken : List UInt8} (h : Reads e d)
    (hserver : d.server = .message 0 taken) (hend : line.data = bytesOf ")")
    (hd : d.serverLine line = some d') :
    ∃ e', imapProcessReply decFails e line = some e' ∧ Reads e' d' := by
  obtain ⟨s, m, hs, hm, htaken⟩ := message_session h hserver
  have hgreeted := h.multiline (h.held.dataLines (by rw [hserver]; rfl))
  have hnot : ¬line.bytes.length ≤ 0 := by
    have hpos := List.length_pos_iff.2 line.bytes_ne_nil
    omega
  have hafter : d.readingAfter line.data = .line := by
    rw [hend]
    rfl
  simp only [ImapDialogue.serverLine, hserver, if_neg hnot, List.drop_zero, hafter, List.take_zero,
    List.append_nil, Option.some.injEq] at hd
  subst hd
  rw [message_eq h hserver, imapProcessUidFetchData, if_pos hend]
  have hhanded : e.handed = some taken := by
    simp [MailSentry.handed, hs, MailSession.bytes, hm, htaken]
  have hstored := (imapSetMimeDecodeComplete_stored (e := { e with
    parserState := { e.parserState with dataUidFetch := false } }) hs).2
  refine ⟨_, rfl, ?_⟩
  exact
    { held :=
        { fetchMode := rfl
          dataLines := by simp [ImapReading.taken]
          appendMode := h.held.appendMode
          stored := by
            refine hstored.trans ?_
            rw [h.held.stored, hhanded]
            simp
          fetched := by simp [ImapReading.taken]
          appended := by simp [h.idle] }
      idle := h.idle
      seen := h.seen
      multiline := h.multiline
      early := by simp [hgreeted]
      live := by simp [imapSetMimeDecodeComplete, MailSentry.store]
      opened := by simp
      free := fun _ => rfl }

theorem messageLine_reads {left : ℕ} {taken : List UInt8} (h : Reads e d)
    (hserver : d.server = .message left taken) (hend : line.data ≠ bytesOf ")")
    (hmessage : messageTaken decFails e left line) (hd : d.serverLine line = some d') :
    ∃ e', imapProcessReply decFails e line = some e' ∧ Reads e' d' := by
  obtain ⟨s, m, hs, hm, htaken⟩ := message_session h hserver
  rw [messageTaken, if_neg hend] at hmessage
  simp only [Bool.and_eq_true, decide_eq_true_eq] at hmessage
  obtain ⟨⟨hle, hread⟩, hdec⟩ := hmessage
  simp only [ImapDialogue.serverLine, hserver, if_pos hle, Option.some.injEq] at hd
  subst hd
  have hok : (imapMimeDecodeParse decFails line e).2 = true := hdec
  rw [message_eq h hserver, imapProcessUidFetchData, if_neg hend, if_pos hread]
  dsimp only
  rw [if_pos hok]
  have hgreeted := h.multiline (h.held.dataLines (by rw [hserver]; rfl))
  have hhanded : (imapMimeDecodeParse decFails line e).1.handed = some (taken ++ line.bytes) := by
    simp [imapMimeDecodeParse, MailSentry.mapMime, MailSentry.mapSession, MailSentry.handed,
      MailSession.bytes, MimeDecState.parseLine, hs, hm, htaken]
  refine ⟨_, rfl, ?_⟩
  exact
    { held :=
        { fetchMode := h.held.fetchMode.trans (by rw [hserver]; rfl)
          dataLines := fun _ => h.held.dataLines (by rw [hserver]; rfl)
          appendMode := h.held.appendMode
          stored := h.held.stored
          fetched := fun _ => hhanded
          appended := by simp [h.idle] }
      idle := h.idle
      seen := h.seen
      multiline := h.multiline
      early := by simp [hgreeted]
      live := by
        intro s' hs'
        simp only [imapMimeDecodeParse, MailSentry.mapMime, MailSentry.mapSession, hs,
          Option.map_some, Option.some.injEq] at hs'
        subst hs'
        exact h.live s hs
      opened := by simp [imapMimeDecodeParse, MailSentry.mapMime, MailSentry.mapSession, hs]
      free := by simp [ImapReading.taken] }

theorem message_reads {left : ℕ} {taken : List UInt8} (h : Reads e d)
    (hserver : d.server = .message left taken) (hmessage : messageTaken decFails e left line)
    (hd : d.serverLine line = some d') :
    ∃ e', imapProcessReply decFails e line = some e' ∧ Reads e' d' := by
  by_cases hend : line.data = bytesOf ")"
  · obtain rfl : left = 0 := by simpa [messageTaken, hend] using hmessage
    exact messageEnd_reads h hserver hend hd
  · exact messageLine_reads h hserver hend hmessage hd

theorem messageTaken_of_exact {left : ℕ} {taken : List UInt8} (h : Reads e d)
    (hserver : d.server = .message left taken) (hd : d.serverLine line = some d')
    (he : imapProcessReply decFails e line = some e') (hexact : Exact e' d') :
    messageTaken decFails e left line := by
  obtain ⟨s, m, hs, hm, htaken⟩ := message_session h hserver
  have hbefore := h.held.stored
  rw [message_eq h hserver, imapProcessUidFetchData] at he
  simp only [ImapDialogue.serverLine, hserver] at hd
  by_cases hend : line.data = bytesOf ")"
  · rw [if_pos hend] at he
    obtain rfl := Option.some.inj he
    rw [messageTaken, if_pos hend, decide_eq_true_eq]
    split at hd
    · -- the message goes on and the parser has left it
      obtain rfl := Option.some.inj hd
      cases hexact.fetchMode
    · -- the parenthesis belongs to the message
      obtain rfl := Option.some.inj hd
      have hstored := (imapSetMimeDecodeComplete_stored (e := { e with
        parserState := { e.parserState with dataUidFetch := false } }) hs).2.symm.trans
          hexact.stored
      have hhanded : e.handed = some taken := by
        simp [MailSentry.handed, hs, MailSession.bytes, hm, htaken]
      simp only [hbefore, hhanded, List.map_append, List.map_cons, List.map_nil,
        List.append_cancel_left_eq, List.cons.injEq, Option.some.injEq, List.self_eq_append_right,
        List.take_eq_nil_iff, line.bytes_ne_nil, or_false, and_true] at hstored
      exact hstored
  · rw [if_neg hend, Option.ite_none_right_eq_some] at he
    obtain ⟨hread, he⟩ := he
    obtain ⟨hok, he⟩ := Option.ite_none_right_eq_some.1 he
    obtain rfl := Option.some.inj he
    rw [messageTaken, if_neg hend]
    split at hd
    · rename_i hle
      simpa [hle, hread, imapMimeDecodeParse] using hok
    · -- the message has ended, and nothing was stored
      obtain rfl := Option.some.inj hd
      have hstored : e.stored.map (·.session.bytes) = _ := hexact.stored
      rw [hbefore] at hstored
      simp at hstored

theorem reads_init : Reads .init .init where
  held := ⟨rfl, by simp [ImapDialogue.init, ImapReading.taken], rfl, rfl,
    by simp [ImapDialogue.init, ImapReading.taken], by simp [ImapDialogue.init]⟩
  idle := rfl
  seen := rfl
  multiline := by simp [ImapEntry.init]
  early := fun _ => rfl
  live := by simp [ImapEntry.init, MailSentry.init]
  opened := by simp [ImapEntry.init]
  free := fun _ => rfl

theorem step_reads {ev : Side × CurrLine} (h : Reads e d) (hd : d.step ev = some d')
    (hstep : d.stepTaken decFails e ev) :
    ∃ e', imapLine decFails ev.1 e ev.2 = some e' ∧ Reads e' d' := by
  obtain ⟨side, line⟩ := ev
  cases side with
  | client => exact request_reads h hd hstep
  | server =>
    simp only [ImapDialogue.stepTaken] at hstep
    cases hserver : d.server with
    | message left taken =>
      rw [hserver] at hstep
      exact message_reads h hserver hstep hd
    | line =>
      rw [hserver] at hstep
      exact reply_reads h (by rw [hserver]; rfl) hd hstep
    | literal left =>
      rw [hserver] at hstep
      exact reply_reads h (by rw [hserver]; rfl) hd hstep

theorem stepTaken_of_exact {ev : Side × CurrLine} (h : Reads e d) (hd : d.step ev = some d')
    (he : imapLine decFails ev.1 e ev.2 = some e') (hexact : Exact e' d') :
    d.stepTaken decFails e ev := by
  obtain ⟨side, line⟩ := ev
  cases side with
  | client =>
    rw [imapLine, request_eq h] at he
    have htaken := imapReadCommand_isSome line (imapSession e line)
    rw [he] at htaken
    exact htaken.symm
  | server =>
    simp only [ImapDialogue.stepTaken]
    cases hserver : d.server with
    | message left taken => exact messageTaken_of_exact h hserver hd he hexact
    | line => exact replyTaken_of_exact h (by rw [hserver]; rfl) hd he hexact
    | literal left => exact replyTaken_of_exact h (by rw [hserver]; rfl) hd he hexact

theorem run_exact_iff {lines : List (Side × CurrLine)} (h : Reads e d) (hd : (d.run lines).isSome) :
    (∀ lines', lines' <+: lines →
      ∃ e' d', lines'.foldlM (fun e ev => imapLine decFails ev.1 e ev.2) e = some e' ∧
        d.run lines' = some d' ∧ Exact e' d') ↔
      d.stepsTaken decFails e lines := by
  induction lines generalizing e d with
  | nil =>
    refine ⟨fun _ => rfl, fun _ lines' hbefore => ?_⟩
    obtain rfl := List.prefix_nil.1 hbefore
    exact ⟨e, d, rfl, rfl, h.held⟩
  | cons ev lines ih =>
    obtain ⟨d', hd'⟩ := Option.isSome_iff_exists.1 hd
    obtain ⟨d₁, hd₁, hrest⟩ := Option.bind_eq_some_iff.1 hd'
    have hrest' : (d₁.run lines).isSome := Option.isSome_of_eq_some hrest
    simp only [ImapDialogue.stepsTaken, hd₁, Bool.and_eq_true]
    constructor
    · intro hall
      obtain ⟨e₁, d₁', he₁, hd₁', hexact⟩ := hall [ev] (by simp)
      have hone : imapLine decFails ev.1 e ev.2 = some e₁ := by simpa using he₁
      obtain rfl : d₁ = d₁' := by simpa [ImapDialogue.run, hd₁] using hd₁'
      have hstep := stepTaken_of_exact h hd₁ hone hexact
      obtain ⟨e₁', hone', h₁⟩ := step_reads h hd₁ hstep
      obtain rfl := Option.some.inj (hone.symm.trans hone')
      refine ⟨hstep, ?_⟩
      rw [hone]
      refine (ih h₁ hrest').1 fun lines' hbefore => ?_
      obtain ⟨e', d', he', hd', hexact'⟩ :=
        hall (ev :: lines') (List.cons_prefix_cons.2 ⟨rfl, hbefore⟩)
      refine ⟨e', d', ?_, ?_, hexact'⟩
      · simpa [List.foldlM_cons, hone] using he'
      · simpa [ImapDialogue.run, List.foldlM_cons, hd₁] using hd'
    · rintro ⟨hstep, hsteps⟩ lines' hbefore
      obtain ⟨e₁, hone, h₁⟩ := step_reads h hd₁ hstep
      rw [hone] at hsteps
      cases lines' with
      | nil => exact ⟨e, d, rfl, rfl, h.held⟩
      | cons ev' lines' =>
        obtain ⟨rfl, hbefore'⟩ := List.cons_prefix_cons.1 hbefore
        obtain ⟨e', d', he', hd', hexact⟩ := (ih h₁ hrest').2 hsteps lines' hbefore'
        refine ⟨e', d', ?_, ?_, hexact⟩
        · simpa [List.foldlM_cons, hone] using he'
        · simpa [ImapDialogue.run, List.foldlM_cons, hd₁] using hd'

end

/-- Of every dialogue, whatever segments its bytes arrive in: up to every line of it the parser
goes on, is in data mode for the bytes of messages only, has stored each message once and as it
was sent and has handed over what has come of the next one, if and only if every step meets the
condition. -/
theorem literals_exact_iff (decFails : List CurrLine → Bool) {segs : List (Side × List UInt8)}
    (hd : (ImapDialogue.init.run (lineEvents (fun _ => []) segs)).isSome) :
    (∀ segs', lineEvents (fun _ => []) segs' <+: lineEvents (fun _ => []) segs →
      ∃ c d', (MailConn.init ImapEntry.init).run (imapLine decFails) segs' = some c ∧
        ImapDialogue.init.run (lineEvents (fun _ => []) segs') = some d' ∧ Exact c.entry d') ↔
      ImapDialogue.init.stepsTaken decFails .init (lineEvents (fun _ => []) segs) := by
  rw [← run_exact_iff reads_init hd]
  constructor
  · intro hall lines' hbefore
    obtain ⟨segs', rfl⟩ := exists_segs_of_lineOf fun ev hev =>
      lineEvents_eq_lineOf (hbefore.subset hev)
    obtain ⟨c, d', hc, hd', hexact⟩ := hall segs' hbefore
    refine ⟨c.entry, d', ?_, hd', hexact⟩
    rw [← run_init, hc]
    rfl
  · intro hall segs' hbefore
    obtain ⟨e', d', he', hd', hexact⟩ := hall _ hbefore
    have hrun := run_init (imapLine decFails) ImapEntry.init segs'
    rw [he'] at hrun
    obtain ⟨c, hc, rfl⟩ := Option.map_eq_some_iff.1 hrun
    exact ⟨c, d', hc, hd', hexact⟩

def fetchedMessage : List (Side × List UInt8) :=
  [(.server, bytesOf "* OK ready\r\n"),
    (.client, bytesOf "a1 LOGIN u p\r\n"),
    (.server, bytesOf "a1 OK done\r\n"),
    (.client, bytesOf "a2 UID FETCH 5 BODY[]\r\n"),
    (.server, bytesOf "* 1 FETCH (UID 5 BODY[] {19}\r\nSubject: x\r"),
    (.server, bytesOf "\n\r\n* y\r\n)\r\na2 OK"),
    (.client, bytesOf "a3 NOOP\r\n"),
    (.server, bytesOf " done\r\na3 OK done\r\n")]

theorem fetchedMessage_exact : ∃ c d,
    (MailConn.init ImapEntry.init).run (imapLine fun _ => false) fetchedMessage = some c ∧
      ImapDialogue.init.run (lineEvents (fun _ => []) fetchedMessage) = some d ∧
      d.finished = [bytesOf "Subject: x\r\n\r\n* y\r\n"] ∧ Exact c.entry d := by
  let d : ImapDialogue := ⟨true, [], none, none, .line, [bytesOf "Subject: x\r\n\r\n* y\r\n"]⟩
  have hd : ImapDialogue.init.run (lineEvents (fun _ => []) fetchedMessage) = some d := by
    decide +kernel
  have hexact := (literals_exact_iff (fun _ => false) (Option.isSome_of_eq_some hd)).2
    (by decide +kernel)
  obtain ⟨c, d', hc, hd', hexact⟩ := hexact fetchedMessage List.prefix_rfl
  obtain rfl : d = d' := Option.some.inj (hd.symm.trans hd')
  exact ⟨c, d, hc, hd, rfl, hexact⟩

def parenthesisMessage : List (Side × List UInt8) :=
  [(.server, bytesOf "* OK ready\r\n"),
    (.client, bytesOf "a1 UID FETCH 5 BODY[]\r\n"),
    (.server, bytesOf "* 1 FETCH (UID 5 BODY[] {20}\r\nSubject: x\r\n\r\n)\r\ny\r\n)\r\n"),
    (.server, bytesOf "a1 OK done\r\n")]

/-- The message is stored without what comes from that line on. -/
theorem parenthesisMessage_not_exact : ∃ c d,
    (MailConn.init ImapEntry.init).run (imapLine fun _ => false) parenthesisMessage = some c ∧
      ImapDialogue.init.run (lineEvents (fun _ => []) parenthesisMessage) = some d ∧
      d.finished = [bytesOf "Subject: x\r\n\r\n)\r\ny\r\n"] ∧
      c.entry.stored.map (·.session.bytes) = [some (bytesOf "Subject: x\r\n\r\n")] ∧
      ¬Exact c.entry d := by
  let d : ImapDialogue :=
    ⟨true, [], none, none, .line, [bytesOf "Subject: x\r\n\r\n)\r\ny\r\n"]⟩
  have hd : ImapDialogue.init.run (lineEvents (fun _ => []) parenthesisMessage) = some d := by
    decide +kernel
  have hlost : (((MailConn.init ImapEntry.init).run (imapLine fun _ => false)
      parenthesisMessage).map (·.entry)).any
      (fun e => e.stored.map (·.session.bytes) = [some (bytesOf "Subject: x\r\n\r\n")] ∧
        ¬Exact e d) := by
    rw [run_init]
    decide +kernel
  obtain ⟨e, he, hlost⟩ := (Option.any_eq_true _ _).1 hlost
  obtain ⟨c, hc, rfl⟩ := Option.map_eq_some_iff.1 he
  obtain ⟨hstored, hnot⟩ := of_decide_eq_true hlost
  exact ⟨c, d, hc, hd, rfl, hstored, hnot⟩

end CloudHands.Mail

import CloudHands.Mail.Pop3Dialogue

/-!
# The parser along a POP3 dialogue

Between two turns there is no current session. A turn is followed command, status line and
body one after the other; only the body of a retrieved mail reaches the MIME decoder.
-/

namespace CloudHands.Mail

open Lib Http

theorem pop3GetCmd_retr_iff (text : List UInt8) :
    pop3GetCmd text = some .retr ↔ strncaseEq (text.dropWhile (· = 32)) "RETR" 4 := by
  unfold pop3GetCmd
  generalize text.dropWhile (· = 32) = cmd
  constructor
  · intro h
    simp only [Option.ite_none_left_eq_some, Option.map_eq_some_iff] at h
    obtain ⟨-, ⟨word, c⟩, hfind, rfl⟩ := h
    have hword : word = "RETR" := by
      simpa [pop3Words] using List.mem_of_find?_eq_some hfind
    have htest := List.find?_some hfind
    subst hword
    exact htest
  · intro h
    have hfour : (cmd.take 4).map toLower = ((bytesOf "RETR").take 4).map toLower := by
      simpa [strncaseEq] using h
    have hlen : ¬cmd.length < 4 := by
      have hlength := congrArg List.length hfour
      have hretr : (((bytesOf "RETR").take 4).map toLower).length = 4 := by decide
      rw [hretr, List.length_map, List.length_take] at hlength
      omega
    have hwords : ∀ w ∈ pop3Words.take 4, (bytesOf w.1).length = 4 ∧
        ((bytesOf "RETR").take 4).map toLower ≠ ((bytesOf w.1).take 4).map toLower := by decide
    have hmiss :
        (pop3Words.take 4).find? (fun w => strncaseEq cmd w.1 (bytesOf w.1).length) = none := by
      refine List.find?_eq_none.2 fun w hw => ?_
      obtain ⟨hlength, hne⟩ := hwords w hw
      rw [hlength, strncaseEq, hfour]
      simpa using hne
    have hsplit : pop3Words = pop3Words.take 4 ++ ("RETR", .retr) :: pop3Words.drop 5 := rfl
    have hfind : (("RETR", .retr) :: pop3Words.drop 5).find?
        (fun w => strncaseEq cmd w.1 (bytesOf w.1).length) = some ("RETR", .retr) := by
      rw [List.find?_cons]
      split
      · rfl
      · rename_i hnot
        have hretr : strncaseEq cmd "RETR" (bytesOf "RETR").length := h
        exact absurd hretr (by simpa using hnot)
    rw [if_neg hlen, hsplit, List.find?_append, hmiss, hfind]
    rfl

theorem le_trimLen {text : List UInt8} {k : ℕ} {c : UInt8} (hc : text[k]? = some c)
    (hlf : c ≠ LF) (hcr : c ≠ CR) {n : ℕ} (hn : k < n) : k < trimLen text n := by
  induction n with
  | zero => omega
  | succ n ih =>
    rw [trimLen]
    split
    · rename_i hend
      have hne : k ≠ n := by
        rintro rfl
        simp [hc, hlf, hcr] at hend
      exact ih (by omega)
    · exact hn

theorem Pop3Turn.Valid.retCode_iff {t : Pop3Turn} (h : t.Valid) :
    pop3RetCode t.status = .ok ↔ t.ok := by
  have hshort : t.status.length % 2 ^ 16 = t.status.length :=
    Nat.mod_eq_of_lt (by have hlen := h.status_length; omega)
  have hcode : pop3RetCode t.status = .ok ↔
      3 ≤ trimLen t.status t.status.length ∧ strncaseEq t.status "+OK" 3 := by
    simp only [pop3RetCode, hshort]
    split
    · simpa
    · rename_i hnot
      split <;> simpa using hnot
  rw [hcode]
  constructor
  · rintro ⟨-, hok⟩
    refine h.status_kind.resolve_right fun hother => ?_
    rcases hother with ⟨rest, hrest⟩ | ⟨rest, hrest⟩ <;> rw [← hrest] at hok
    · simp [strncaseEq, toLower, bytesOf] at hok
    · simp [strncaseEq, toLower, bytesOf] at hok
  · intro hok
    obtain ⟨rest, hrest⟩ := List.isPrefixOf_iff_prefix.1 hok
    have hbytes : bytesOf "+OK" = [43, 79, 75] := by decide
    rw [hbytes] at hrest
    have hlast : t.status[2]? = some 75 := by simp [← hrest]
    have hlen : 2 < t.status.length := by simp [← hrest]
    refine ⟨le_trimLen hlast (by decide) (by decide) hlen, ?_⟩
    simp [← hrest, strncaseEq, hbytes]

def pop3Change (s : Pop3State) : Pop3State :=
  let s := pop3Login s
  if s.isLogined ∧ s.state = .transaction then
    if s.cmd = some .quit then { s with state := .update }
    else if s.cmd = some .retr then { s with state := .data }
    else s
  else s

theorem pop3ChangeState_eq {e : Pop3Entry} (h : e.currSession = none) :
    pop3ChangeState e = { e with pop3 := pop3Change e.pop3 } := by
  simp only [pop3ChangeState, pop3Change, h, Option.any_none]
  split
  · split
    · rfl
    · split <;> rfl
  · rfl

structure Pop3State.Sane (s : Pop3State) (loggedIn : Bool) : Prop where
  logined : s.isLogined = loggedIn
  authorization : s.state = .authorization ↔ loggedIn = false

structure Pop3Entry.Idle (e : Pop3Entry) (loggedIn : Bool) : Prop where
  sessionList : e.sessionList = []
  currSession : e.currSession = none
  state : e.pop3.Sane loggedIn

theorem pop3Login_eq {s : Pop3State} {c : Pop3Cmd} (hcmd : s.cmd = some c) :
    pop3Login s =
      if c = .pass || c.inTransaction then { s with isLogined := true, state := .transaction }
      else s := by
  obtain ⟨logined, cmd, retCode, state⟩ := s
  obtain rfl : cmd = some c := hcmd
  cases c <;> cases state <;> cases logined <;> rfl

theorem pop3Change_sane {s : Pop3State} {loggedIn : Bool} {c : Pop3Cmd} (h : s.Sane loggedIn)
    (hcmd : s.cmd = some c) (hretr : c ≠ .retr) (hdata : s.state ≠ .data) :
    (pop3Change s).Sane (loggedIn || (c = .pass || c.inTransaction)) ∧
      (pop3Change s).cmd = some c ∧ (pop3Change s).state ≠ .data := by
  unfold pop3Change
  rw [pop3Login_eq hcmd]
  by_cases hin : c = .pass || c.inTransaction
  · have hquit : c ≠ .quit := by
      rintro rfl
      simp [Pop3Cmd.inTransaction] at hin
    simp only [hin, if_true, hcmd, Option.some.injEq, hquit, hretr, if_false, and_self,
      Bool.or_true]
    exact ⟨⟨rfl, by simp⟩, by simp⟩
  · simp only [hin, if_false, hcmd, Option.some.injEq, hretr, Bool.or_false, Bool.false_eq_true]
    split
    · rename_i htrans
      split
      · exact ⟨⟨h.logined, by simp [← h.logined, htrans.1]⟩, rfl, by simp⟩
      · exact ⟨h, hcmd, hdata⟩
    · exact ⟨h, hcmd, hdata⟩

theorem pop3Change_retr {s : Pop3State} (hcmd : s.cmd = some .retr) :
    pop3Change s = { s with isLogined := true, state := .data } := by
  simp [pop3Change, pop3Login_eq hcmd, hcmd, Pop3Cmd.inTransaction]

theorem command_isSome {e : Pop3Entry} {loggedIn : Bool} {t : Pop3Turn} (h : e.Idle loggedIn) :
    (pop3HandleClientData e ⟨t.command, 2⟩).isSome = t.taken loggedIn := by
  unfold Pop3Turn.taken pop3HandleClientData
  cases loggedIn with
  | true =>
    have hauth : e.pop3.state ≠ .authorization := fun hstate => by
      simpa using h.state.authorization.1 hstate
    have hcmd : (pop3ParseCmd ⟨t.command, 2⟩ e).isSome = (pop3GetCmd t.command).isSome := by
      simp [pop3ParseCmd]
    cases hstate : e.pop3.state with
    | authorization => exact absurd hstate hauth
    | _ =>
      rw [hcmd]
      cases pop3GetCmd t.command with
      | none => rfl
      | some c => cases c <;> rfl
  | false =>
    have hauth : e.pop3.state = .authorization := h.state.authorization.2 rfl
    simp only [hauth, pop3ParseAuth]
    cases pop3GetCmd t.command with
    | none => rfl
    | some c =>
      cases c <;> simp [pop3ProcessCommandUser, pop3ProcessCommandPass]

structure Pop3Entry.Waits (e : Pop3Entry) (loggedIn : Bool) (c : Pop3Cmd)
    (stored : List StoredMail) : Prop where
  idle : e.Idle loggedIn
  cmd : e.pop3.cmd = some c
  state : e.pop3.state ≠ .data
  stored : e.stored = stored

theorem parseCmd_waits {e e' : Pop3Entry} {line : CurrLine} (h : e.Idle true)
    (he' : pop3ParseCmd line e = some e') :
    ∃ c, pop3GetCmd line.data = some c ∧ e'.Waits true c e.stored := by
  obtain ⟨c, hc, rfl⟩ := Option.map_eq_some_iff.1 he'
  exact ⟨c, hc, ⟨h.sessionList, h.currSession, h.state.logined, by simp⟩, rfl, by simp, rfl⟩

theorem parseAuth_waits {e e' : Pop3Entry} {line : CurrLine} (h : e.Idle false)
    (he' : pop3ParseAuth line e = some e') :
    ∃ c, pop3GetCmd line.data = some c ∧ e'.Waits false c e.stored := by
  unfold pop3ParseAuth at he'
  cases hc : pop3GetCmd line.data with
  | none => simp [hc] at he'
  | some c =>
    rw [hc] at he'
    refine ⟨c, rfl, ?_⟩
    cases c with
    | user =>
      obtain ⟨arg, -, rfl⟩ := Option.map_eq_some_iff.1 he'
      exact ⟨⟨h.sessionList, h.currSession, h.state.logined, by simp⟩, rfl, by simp, rfl⟩
    | pass =>
      obtain ⟨arg, -, rfl⟩ := Option.map_eq_some_iff.1 he'
      exact ⟨⟨h.sessionList, h.currSession, h.state.logined, by simp⟩, rfl, by simp, rfl⟩
    | _ =>
      obtain rfl := Option.some.inj he'
      exact ⟨⟨h.sessionList, h.currSession, h.state.logined, by simp⟩, rfl, by simp, rfl⟩

theorem command_waits {e e' : Pop3Entry} {loggedIn : Bool} {line : CurrLine} (h : e.Idle loggedIn)
    (he' : pop3HandleClientData e line = some e') :
    ∃ c, pop3GetCmd line.data = some c ∧ e'.Waits loggedIn c e.stored := by
  unfold pop3HandleClientData at he'
  cases hstate : e.pop3.state with
  | authorization =>
    obtain rfl := h.state.authorization.1 hstate
    rw [hstate] at he'
    exact parseAuth_waits h he'
  | _ =>
    obtain rfl : loggedIn = true := by
      by_contra hnot
      simpa [hstate] using h.state.authorization.2 (by simpa using hnot)
    rw [hstate] at he'
    exact parseCmd_waits h he'

theorem handleServerData_answer {e : Pop3Entry} (h : e.pop3.state ≠ .data) (line : CurrLine) :
    pop3HandleServerData e line = pop3ParseAnswer line e := by
  unfold pop3HandleServerData
  cases hstate : e.pop3.state <;> first | rfl | exact absurd hstate h

theorem answer_refused {e : Pop3Entry} {loggedIn : Bool} {c : Pop3Cmd} {stored : List StoredMail}
    (h : e.Waits loggedIn c stored) (line : CurrLine) (hok : pop3RetCode line.data ≠ .ok) :
    (pop3HandleServerData e line).Waits loggedIn c stored := by
  obtain ⟨⟨hlist, hcurr, hsane⟩, hcmd, hdata, hstored⟩ := h
  have hresult : pop3ParseAnswer line e =
      { e with pop3 := { e.pop3 with retCode := pop3RetCode line.data } } := if_neg hok
  rw [handleServerData_answer hdata, hresult]
  exact ⟨⟨hlist, hcurr, hsane.logined, hsane.authorization⟩, hcmd, hdata, hstored⟩

theorem answer_accepted {e : Pop3Entry} {loggedIn : Bool} {c : Pop3Cmd} {stored : List StoredMail}
    (h : e.Waits loggedIn c stored) {line : CurrLine} (hok : pop3RetCode line.data = .ok) :
    pop3HandleServerData e line =
      { e with pop3 := pop3Change { e.pop3 with retCode := pop3RetCode line.data } } := by
  rw [handleServerData_answer h.state]
  exact (if_pos hok).trans (pop3ChangeState_eq
    (e := { e with pop3 := { e.pop3 with retCode := pop3RetCode line.data } }) h.idle.currSession)

theorem answer_line {e : Pop3Entry} {loggedIn : Bool} {c : Pop3Cmd} {stored : List StoredMail}
    (h : e.Waits loggedIn c stored) (hretr : c ≠ .retr) (line : CurrLine) :
    (pop3HandleServerData e line).Waits
      (loggedIn || (pop3RetCode line.data = .ok && (c = .pass || c.inTransaction))) c stored := by
  by_cases hok : pop3RetCode line.data = .ok
  · obtain ⟨⟨hlist, hcurr, hsane⟩, hcmd, hdata, hstored⟩ := h
    obtain ⟨hsane', hcmd', hdata'⟩ := pop3Change_sane
      (s := { e.pop3 with retCode := pop3RetCode line.data })
      ⟨hsane.logined, hsane.authorization⟩ hcmd hretr hdata
    rw [answer_accepted ⟨⟨hlist, hcurr, hsane⟩, hcmd, hdata, hstored⟩ hok]
    simp only [hok, decide_true, Bool.true_and] at hsane' hcmd' hdata' ⊢
    exact ⟨⟨hlist, hcurr, hsane'⟩, hcmd', hdata', hstored⟩
  · simpa [hok] using answer_refused h line hok

theorem answer_body {e : Pop3Entry} {loggedIn : Bool} {c : Pop3Cmd} {stored : List StoredMail}
    (h : e.Waits loggedIn c stored) (hretr : c ≠ .retr)
    (hin : c = .pass || c.inTransaction → loggedIn) (lines : List CurrLine) :
    (lines.foldl pop3HandleServerData e).Waits loggedIn c stored := by
  induction lines generalizing e with
  | nil => exact h
  | cons line lines ih =>
    have hline := answer_line h hretr line
    have hlogged : (loggedIn || (pop3RetCode line.data = .ok && (c = .pass || c.inTransaction))) =
        loggedIn := by
      cases hflag : (decide (c = .pass) || c.inTransaction) with
      | false => simp
      | true => simp [hin hflag]
    rw [hlogged] at hline
    exact ih hline

def openSession (lines : List CurrLine) : MailSession := ⟨false, some ⟨lines, false, false⟩⟩

def closedSession (lines : List CurrLine) : MailSession := ⟨true, some ⟨lines, true, false⟩⟩

theorem parseData_open {e : Pop3Entry} {lines : List CurrLine}
    (h : e.currSession = some (openSession lines)) {line : CurrLine}
    (hdot : line.data ≠ bytesOf ".") :
    pop3ParseData line e = { e with currSession := some (openSession (lines ++ [line])) } := by
  simp [pop3ParseData, pop3OpenMail, hdot, h, openSession, MailSentry.mapSession,
    MailSentry.mapMime,
    MimeDecState.parseLine]

theorem parseData_dot {e : Pop3Entry} {lines : List CurrLine}
    (h : e.currSession = some (openSession lines)) {line : CurrLine}
    (hdot : line.data = bytesOf ".") :
    pop3ParseData line e =
      { e with currSession := none
               stored := e.stored ++ [e.storedMail (closedSession lines)] } := by
  simp [pop3ParseData, pop3OpenMail, hdot, h, openSession, closedSession, MailSentry.mapSession,
    MailSentry.mapMime, MimeDecState.parseComplete, MailSentry.store, MailSentry.storedMail]

theorem parseData_none {e : Pop3Entry} (hlist : e.sessionList = []) (h : e.currSession = none)
    (line : CurrLine) :
    pop3ParseData line e = pop3ParseData line { e with currSession := some (openSession []) } := by
  simp [pop3ParseData, pop3OpenMail, h, hlist, openSession, MailSentry.mapSession,
    MailSentry.newSession, mailSessionCreate, mimeDecInitParser]

theorem mail_lines {e : Pop3Entry} {acc lines : List CurrLine} (hstate : e.pop3.state = .data)
    (hcurr : e.currSession = some (openSession acc))
    (hlines : ∀ line ∈ lines, line.data ≠ bytesOf ".") {dot : CurrLine}
    (hdot : dot.data = bytesOf ".") :
    (lines ++ [dot]).foldl pop3HandleServerData e =
      { e with currSession := none
               stored := e.stored ++ [e.storedMail (closedSession (acc ++ lines))] } := by
  have hdata : ∀ {e : Pop3Entry} line, e.pop3.state = .data →
      pop3HandleServerData e line = pop3ParseData line e := by
    intro e line hstate
    rw [pop3HandleServerData, hstate]
  induction lines generalizing e acc with
  | nil =>
    rw [List.nil_append, List.foldl_cons, List.foldl_nil, hdata dot hstate,
      parseData_dot hcurr hdot,
      List.append_nil]
  | cons line lines ih =>
    obtain ⟨hline, hrest⟩ := List.forall_mem_cons.1 hlines
    rw [List.cons_append, List.foldl_cons, hdata line hstate, parseData_open hcurr hline]
    have hnext := @ih { e with currSession := some (openSession (acc ++ [line])) }
      (acc ++ [line]) hstate rfl hrest
    rw [hnext, List.append_assoc]
    rfl

theorem mail_answer {e : Pop3Entry} {loggedIn : Bool} {stored : List StoredMail}
    (h : e.Waits loggedIn .retr stored) (status dot : CurrLine) (lines : List CurrLine)
    (hok : pop3RetCode status.data = .ok) (hlines : ∀ line ∈ lines, line.data ≠ bytesOf ".")
    (hdot : dot.data = bytesOf ".") :
    ((status :: (lines ++ [dot])).foldl pop3HandleServerData e).Idle true ∧
      ((status :: (lines ++ [dot])).foldl pop3HandleServerData e).stored.map
          StoredMail.messageLines =
        stored.map StoredMail.messageLines ++ [lines] := by
  have haccepted := answer_accepted h hok
  rw [pop3Change_retr (by exact h.cmd)] at haccepted
  obtain ⟨⟨hlist, hcurr, hsane⟩, hcmd, hdata, hstored⟩ := h
  let e₁ : Pop3Entry := { e with pop3 := { e.pop3 with
    retCode := pop3RetCode status.data, isLogined := true, state := .data } }
  have hopen : (lines ++ [dot]).foldl pop3HandleServerData e₁ =
      (lines ++ [dot]).foldl pop3HandleServerData
        { e₁ with currSession := some (openSession []) } := by
    cases lines with
    | nil => exact parseData_none (e := e₁) hlist hcurr dot
    | cons line lines =>
      have hfirst := parseData_none (e := e₁) hlist hcurr line
      exact congrArg (List.foldl pop3HandleServerData · (lines ++ [dot])) hfirst
  rw [List.foldl_cons, haccepted, hopen,
    mail_lines (e := { e₁ with currSession := some (openSession []) }) rfl rfl hlines hdot]
  refine ⟨⟨hlist, rfl, rfl, by simp [e₁]⟩, ?_⟩
  simp [e₁, hstored, StoredMail.messageLines, MailSentry.storedMail, closedSession]

def pop3Follow (e : Pop3Entry) (lines : List (Side × CurrLine)) : Option Pop3Entry :=
  lines.foldlM (fun e ev => pop3Line ev.1 e ev.2) e

theorem pop3Follow_server (e : Pop3Entry) (texts : List (List UInt8)) :
    pop3Follow e (texts.map fun text => (.server, ⟨text, 2⟩)) =
      some ((texts.map (⟨·, 2⟩)).foldl pop3HandleServerData e) := by
  induction texts generalizing e with
  | nil => rfl
  | cons text texts ih => exact ih (pop3HandleServerData e ⟨text, 2⟩)

theorem pop3Follow_turn (e : Pop3Entry) (t : Pop3Turn) :
    pop3Follow e t.lines = (pop3HandleClientData e ⟨t.command, 2⟩).map fun e =>
      (t.answer.map (⟨·, 2⟩)).foldl pop3HandleServerData e := by
  unfold Pop3Turn.lines
  cases hcommand : pop3HandleClientData e ⟨t.command, 2⟩ with
  | none => simp [pop3Follow, pop3Line, hcommand]
  | some e₁ =>
    have hserver := pop3Follow_server e₁ t.answer
    simp only [pop3Follow, List.foldlM_cons, pop3Line, hcommand] at hserver ⊢
    exact hserver

theorem stuff_ne_dot (line : List UInt8) : stuff line ≠ bytesOf "." := by
  have hdot : bytesOf "." = [46] := by decide
  rw [hdot]
  unfold stuff
  split
  · rename_i hhead
    intro heq
    simp [(List.cons.inj heq).2] at hhead
  · rename_i hhead
    rintro rfl
    exact hhead rfl

theorem retr_iff (t : Pop3Turn) : t.retr ↔ pop3GetCmd t.command = some .retr :=
  (pop3GetCmd_retr_iff t.command).symm

theorem plain_answer {e : Pop3Entry} {loggedIn : Bool} {t : Pop3Turn} {c : Pop3Cmd}
    {stored : List StoredMail} (h : e.Waits loggedIn c stored) (hv : t.Valid)
    (hc : pop3GetCmd t.command = some c) (hplain : ¬(t.ok ∧ t.retr)) :
    ((t.answer.map (⟨·, 2⟩)).foldl pop3HandleServerData e).Idle (t.loggedInAfter loggedIn) ∧
      ((t.answer.map (⟨·, 2⟩)).foldl pop3HandleServerData e).stored = stored := by
  unfold Pop3Turn.answer Pop3Turn.loggedInAfter
  rw [hc, List.map_cons, List.foldl_cons]
  cases hok : t.ok with
  | false =>
    have hstatus : pop3RetCode t.status ≠ .ok := fun h => by simp [hv.retCode_iff.1 h] at hok
    have hbody : t.body = none := by
      cases hb : t.body with
      | none => rfl
      | some lines => simp [hv.body_ok (by simp [hb])] at hok
    have hrefused := answer_refused h ⟨t.status, 2⟩ hstatus
    simp only [hbody, Option.map_none, Option.getD_none, List.map_nil, List.foldl_nil,
      Bool.false_and, Bool.or_false]
    exact ⟨hrefused.idle, hrefused.stored⟩
  | true =>
    have hretr : c ≠ .retr := by
      rintro rfl
      exact hplain ⟨hok, (retr_iff t).2 hc⟩
    have hstatus : pop3RetCode t.status = .ok := hv.retCode_iff.2 hok
    have hline := answer_line h hretr ⟨t.status, 2⟩
    simp only [hstatus, decide_true, Bool.true_and] at hline
    have hbody := answer_body hline hretr (fun hin => by simp [hin])
      ((t.body.map fun lines => lines.map stuff ++ [bytesOf "."]).getD [] |>.map (⟨·, 2⟩))
    exact ⟨hbody.idle, hbody.stored⟩

theorem turn_follow {e : Pop3Entry} {loggedIn : Bool} {t : Pop3Turn} (h : e.Idle loggedIn)
    (hv : t.Valid) (htaken : t.taken loggedIn) :
    ∃ e', pop3Follow e t.lines = some e' ∧ e'.Idle (t.loggedInAfter loggedIn) ∧
      e'.stored.map StoredMail.messageLines =
        e.stored.map StoredMail.messageLines ++
          (t.retrieved.map fun lines => lines.map fun line => ⟨stuff line, 2⟩).toList := by
  rw [← command_isSome h] at htaken
  obtain ⟨e₁, he₁⟩ := Option.isSome_iff_exists.1 htaken
  obtain ⟨c, hc, hwaits⟩ := command_waits h he₁
  rw [pop3Follow_turn, he₁]
  refine ⟨_, rfl, ?_⟩
  by_cases hmail : t.ok ∧ t.retr
  · obtain ⟨hok, hretr⟩ := hmail
    obtain ⟨lines, hlines⟩ := Option.isSome_iff_exists.1 (hv.retr_body hok hretr)
    obtain rfl : c = .retr := Option.some.inj (hc.symm.trans ((retr_iff t).1 hretr))
    have hanswer : t.answer.map (⟨·, 2⟩) = (⟨t.status, 2⟩ : CurrLine) ::
        (lines.map (fun line => ⟨stuff line, 2⟩) ++ [⟨bytesOf ".", 2⟩]) := by
      simp [Pop3Turn.answer, hlines]
    have hmail := mail_answer hwaits ⟨t.status, 2⟩ ⟨bytesOf ".", 2⟩
      (lines.map fun line => ⟨stuff line, 2⟩) (hv.retCode_iff.2 hok)
      (by
        intro line hline
        obtain ⟨text, -, rfl⟩ := List.mem_map.1 hline
        exact stuff_ne_dot text)
      rfl
    have hlogin : t.loggedInAfter loggedIn = true := by
      simp [Pop3Turn.loggedInAfter, hok, hc, Pop3Cmd.inTransaction]
    rw [hanswer, hlogin]
    simpa [Pop3Turn.retrieved, hok, hretr, hlines] using hmail
  · obtain ⟨hidle, hstored⟩ := plain_answer hwaits hv hc hmail
    have hnone : t.retrieved = none := by
      simp only [Pop3Turn.retrieved, Bool.and_eq_true, if_neg hmail]
    refine ⟨hidle, ?_⟩
    rw [hstored, hnone]
    simp

theorem turn_broken {e : Pop3Entry} {loggedIn : Bool} {t : Pop3Turn} (h : e.Idle loggedIn)
    (htaken : t.taken loggedIn = false) : pop3Follow e t.lines = none := by
  have hnone : pop3HandleClientData e ⟨t.command, 2⟩ = none := by
    rw [← command_isSome h] at htaken
    simpa using htaken
  rw [pop3Follow_turn, hnone]
  rfl

theorem pop3Follow_append (e : Pop3Entry) (l l' : List (Side × CurrLine)) :
    pop3Follow e (l ++ l') = (pop3Follow e l).bind fun e' => pop3Follow e' l' :=
  List.foldlM_append

theorem turns_follow {turns : List Pop3Turn} {e : Pop3Entry} {loggedIn : Bool}
    (h : e.Idle loggedIn) (hv : ∀ t ∈ turns, t.Valid) (htaken : turnsTaken loggedIn turns) :
    ∃ e', pop3Follow e (turns.flatMap Pop3Turn.lines) = some e' ∧
      e'.clean.map StoredMail.messageLines =
        e.stored.map StoredMail.messageLines ++
          (turns.filterMap Pop3Turn.retrieved).map fun lines =>
            lines.map fun line => ⟨stuff line, 2⟩ := by
  induction turns generalizing e loggedIn with
  | nil =>
    refine ⟨e, rfl, ?_⟩
    simp [MailSentry.clean, h.sessionList, h.currSession]
  | cons t turns ih =>
    obtain ⟨ht, hturns⟩ := List.forall_mem_cons.1 hv
    obtain ⟨hfirst, hrest⟩ := Bool.and_eq_true_iff.1 htaken
    obtain ⟨e₁, he₁, hidle, hstored⟩ := turn_follow h ht hfirst
    obtain ⟨e', he', hclean⟩ := ih hidle hturns hrest
    refine ⟨e', ?_, ?_⟩
    · rw [List.flatMap_cons, pop3Follow_append, he₁]
      exact he'
    · rw [hclean, hstored, List.append_assoc]
      cases hr : t.retrieved <;> simp [hr]

theorem turns_broken {turns : List Pop3Turn} {e : Pop3Entry} {loggedIn : Bool}
    (h : e.Idle loggedIn) (hv : ∀ t ∈ turns, t.Valid) (htaken : turnsTaken loggedIn turns = false) :
    pop3Follow e (turns.flatMap Pop3Turn.lines) = none := by
  induction turns generalizing e loggedIn with
  | nil => cases htaken
  | cons t turns ih =>
    obtain ⟨ht, hturns⟩ := List.forall_mem_cons.1 hv
    rw [List.flatMap_cons, pop3Follow_append]
    cases hfirst : t.taken loggedIn with
    | false =>
      rw [turn_broken h hfirst]
      rfl
    | true =>
      obtain ⟨e₁, he₁, hidle, -⟩ := turn_follow h ht hfirst
      rw [turnsTaken, hfirst, Bool.true_and] at htaken
      rw [he₁]
      exact ih hidle hturns htaken

theorem greeting_idle (greeting : List UInt8) :
    (pop3HandleServerData Pop3Entry.init ⟨greeting, 2⟩).Idle false ∧
      (pop3HandleServerData Pop3Entry.init ⟨greeting, 2⟩).stored = [] := by
  have hgreeting : pop3HandleServerData Pop3Entry.init ⟨greeting, 2⟩ =
      { Pop3Entry.init with pop3 :=
          { Pop3Entry.init.pop3 with retCode := pop3RetCode greeting } } := by
    show pop3ParseAnswer _ _ = _
    simp only [pop3ParseAnswer]
    split <;> rfl
  rw [hgreeting]
  exact ⟨⟨rfl, rfl, rfl, by simp [Pop3Entry.init]⟩, rfl⟩

theorem stuff_eq_self_iff (line : List UInt8) : stuff line = line ↔ line.head? ≠ some 46 := by
  unfold stuff
  split
  · rename_i hhead
    simp [hhead]
  · rename_i hhead
    simp [hhead]

theorem stuffed_eq_iff (mails : List (List (List UInt8))) :
    (mails.map fun lines => lines.map fun line => (⟨stuff line, 2⟩ : CurrLine)) =
        mails.map (fun lines => lines.map (⟨·, 2⟩)) ↔
      ∀ lines ∈ mails, ∀ line ∈ lines, line.head? ≠ some 46 := by
  simp only [List.map_inj_left, CurrLine.mk.injEq, and_true, stuff_eq_self_iff]

/-- The mails of a dialogue are restored exactly when the parser goes on after every command
and no line of a retrieved mail begins with a dot. -/
theorem restored_iff {greeting : List UInt8} {turns : List Pop3Turn}
    {segs : List (Side × List UInt8)} (h : Pop3Dialogue greeting turns segs) :
    Restored turns segs ↔
      turnsTaken false turns ∧
        ∀ lines ∈ turns.filterMap Pop3Turn.retrieved, ∀ line ∈ lines, line.head? ≠ some 46 := by
  obtain ⟨hidle, hstored⟩ := greeting_idle greeting
  have hrun : ((MailConn.init Pop3Entry.init).run pop3Line segs).map (·.entry) =
      pop3Follow (pop3HandleServerData Pop3Entry.init ⟨greeting, 2⟩)
        (turns.flatMap Pop3Turn.lines) := by
    rw [run_init, h.lineEvents]
    rfl
  cases htaken : turnsTaken false turns with
  | false =>
    rw [turns_broken hidle h.valid htaken] at hrun
    refine ⟨fun ⟨c, hc, _⟩ => ?_, fun hnot => by simp at hnot⟩
    rw [hc] at hrun
    cases hrun
  | true =>
    obtain ⟨e, he, hclean⟩ := turns_follow hidle h.valid htaken
    rw [hstored, List.map_nil, List.nil_append] at hclean
    rw [he] at hrun
    obtain ⟨c, hc, rfl⟩ := Option.map_eq_some_iff.1 hrun
    rw [← stuffed_eq_iff, ← hclean]
    constructor
    · rintro ⟨c', hc', hmails⟩
      obtain rfl := Option.some.inj (hc.symm.trans hc')
      exact ⟨rfl, hmails⟩
    · rintro ⟨-, hmails⟩
      exact ⟨c, hc, hmails⟩

def fetchTurns : List Pop3Turn :=
  [⟨bytesOf "USER bob", bytesOf "+OK", none⟩, ⟨bytesOf "PASS x", bytesOf "+OK", none⟩,
    ⟨bytesOf "list", bytesOf "+OK", some [bytesOf "1 20"]⟩,
    ⟨bytesOf "Retr 1", bytesOf "+OK", some [bytesOf "Subject: a", [], bytesOf "b"]⟩,
    ⟨bytesOf "QUIT", bytesOf "+OK", none⟩]

def fetchSegments : List (Side × List UInt8) :=
  [(.server, bytesOf "+OK\r\n"), (.client, bytesOf "USER bob\r\n"), (.server, bytesOf "+OK\r\n"),
    (.client, bytesOf "PASS x\r\n"), (.server, bytesOf "+OK\r\n"),
    (.client, bytesOf "list\r\n"), (.server, bytesOf "+OK\r\n1 20\r\n.\r\n"),
    (.client, bytesOf "Retr 1\r\n"), (.server, bytesOf "+OK\r\nSubject"),
    (.server, bytesOf ": a\r\n\r\nb\r\n.\r\n"), (.client, bytesOf "QUIT\r\n"),
    (.server, bytesOf "+OK\r\n")]

theorem fetch_dialogue : Pop3Dialogue (bytesOf "+OK") fetchTurns fetchSegments where
  greeting_line := by decide
  valid := by decide +kernel
  segments := by
    refine ⟨fetchSegments.take 1, fetchSegments.drop 1, rfl, ⟨by decide, by decide⟩, ?_⟩
    refine @Pop3Segments.turn _ _ [_] [_] _ ⟨by decide, by decide⟩ ⟨by decide, by decide⟩ ?_
    refine @Pop3Segments.turn _ _ [_] [_] _ ⟨by decide, by decide⟩ ⟨by decide, by decide⟩ ?_
    refine @Pop3Segments.turn _ _ [_] [_] _ ⟨by decide, by decide⟩ ⟨by decide, by decide⟩ ?_
    refine @Pop3Segments.turn _ _ [_] [_, _] _ ⟨by decide, by decide⟩ ⟨by decide, by decide⟩ ?_
    exact @Pop3Segments.turn _ _ [_] [_] _ ⟨by decide, by decide⟩ ⟨by decide, by decide⟩ .nil

theorem fetch_restored : Restored fetchTurns fetchSegments :=
  (restored_iff fetch_dialogue).2 ⟨by decide +kernel, by decide +kernel⟩

def capaSegments : List (Side × List UInt8) :=
  [(.server, bytesOf "+OK\r\n"), (.client, bytesOf "CAPA\r\n"),
    (.server, bytesOf "+OK\r\nTOP\r\n.\r\n")]

/-- The parser does not know the command `CAPA`. -/
theorem capa_not_restored : ∃ greeting turns,
    Pop3Dialogue greeting turns capaSegments ∧
      (MailConn.init Pop3Entry.init).run pop3Line capaSegments = none ∧
      ¬Restored turns capaSegments := by
  let turns : List Pop3Turn := [⟨bytesOf "CAPA", bytesOf "+OK", some [bytesOf "TOP"]⟩]
  have hbroken : (MailConn.init Pop3Entry.init).run pop3Line capaSegments = none := by
    have hrun := run_init pop3Line Pop3Entry.init capaSegments
    rw [show (lineEvents (fun _ => []) capaSegments).foldlM
      (fun s ev => pop3Line ev.1 s ev.2) Pop3Entry.init = none by decide +kernel] at hrun
    simpa using hrun
  refine ⟨bytesOf "+OK", turns, ⟨by decide, by decide +kernel, ?_⟩, hbroken, ?_⟩
  · refine ⟨capaSegments.take 1, capaSegments.drop 1, rfl, ⟨by decide, by decide⟩, ?_⟩
    exact @Pop3Segments.turn _ _ [_] [_] _ ⟨by decide, by decide⟩ ⟨by decide, by decide⟩ .nil
  · rintro ⟨c, hc, -⟩
    rw [hbroken] at hc
    cases hc

end CloudHands.Mail

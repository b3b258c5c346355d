import CloudHands.Ftp.Login
import CloudHands.Proto.Ftp
import CloudHands.Proto.Http

/-!
# FTP dialogues from the wire to the reader

What `do_ftp_session_format` writes of the commands and replies of a control connection, and what
`FTPSession.parse` shows of them. The newest command comes first.
-/

namespace CloudHands.Proto

open Lib Lib.TokenReader Msgpack Japi
open Ftp (FtpLogin FtpAns FtpCmd ControlPiece AllInTurn Answering commands replies answersTo
  runPieces
  loginRun firstArgs strToUint16)

def ansRecord (ans : FtpAns) : FtpAnsRecord := ⟨.ofNat ans.code, ans.phrase⟩

def cmdRecord (cmd : FtpCmd) : FtpCmdRecord := ⟨cmd.cmd, cmd.args, cmd.ansList.map ansRecord⟩

/-- The fields of `ch_ftp_session_t` that are written, a null text being empty. -/
def ftpRecord (s : Ftp.FtpSession) (l : FtpLogin) : FtpRecord :=
  ⟨l.user.getD [], l.passwd.getD [], s.cmdList.map cmdRecord⟩

/-- `FTPSession.setLoginCode`: the code of the first answer to the first command of the list that
is `PASS` in letters of either case. -/
def FTPSession.loginCode (got : FTPSession) : ℕ :=
  ((got.cmdList.find? fun cmd => isHeader cmd.cmd "PASS").bind (·.ansList.head?)).elim 0 (·.code)

abbrev LoggedCmd : Type := List UInt8 × List UInt8 × List FtpAns

def ShownAns (got : FTPAns) (ans : FtpAns) : Prop := got.code = ans.code ∧
    SameText got.phrase ans.phrase

structure ShownCmd (got : FTPCmd) (logged : LoggedCmd) : Prop where
  cmd : SameText got.cmd logged.1
  args : SameText got.args logged.2.1
  ansList : List.Forall₂ ShownAns got.ansList logged.2.2

def dialogueOf (answering : Answering) (pieces : List ControlPiece) : List LoggedCmd :=
  (commands pieces).mapIdx fun i cmd => (cmd.1, cmd.2, answersTo answering (replies pieces) i)

def loggedRecord (logged : LoggedCmd) : FtpCmdRecord :=
  ⟨logged.1, logged.2.1, logged.2.2.map ansRecord⟩

/-- The record of a dialogue: the arguments of its first `USER` and `PASS`, and all of it
backwards. -/
def dialogueRecord (answering : Answering) (pieces : List ControlPiece) : FtpRecord :=
  ⟨(firstArgs "USER" (commands pieces)).getD [], (firstArgs "PASS" (commands pieces)).getD [],
    (dialogueOf answering pieces).reverse.map loggedRecord⟩

/-- The code of the first reply to the last command that the Java side takes for `PASS`. -/
def lastPassCode (env : Env) (dialogue : List LoggedCmd) : ℕ :=
  ((dialogue.reverse.find? fun logged => isHeader (decodeText env.replaced logged.1) "PASS").bind
    (·.2.2.head?)).elim 0 (·.code)

structure FtpShown (env : Env) (got : FTPSession) (t : TcpSession) (answering : Answering)
    (pieces : List ControlPiece) : Prop where
  sessionEntry : got.sessionEntry.Same t
  user : SameText got.user ((firstArgs "USER" (commands pieces)).getD [])
  passwd : SameText got.passwd ((firstArgs "PASS" (commands pieces)).getD [])
  cmdList : List.Forall₂ ShownCmd got.cmdList (dialogueOf answering pieces).reverse
  loginCode : got.loginCode = lastPassCode env (dialogueOf answering pieces)

section Reported

variable {env : Env} {t : TcpSession} {answering : Answering} {pieces : List ControlPiece}

theorem strToUint16_lt (s : List UInt8) : strToUint16 s < 2 ^ 16 := by
  have hfold : ∀ (digits : List UInt8) (code : ℕ), code < 2 ^ 16 →
      digits.foldl (fun code c => (code * 10 + (c.toNat - 48)) % 2 ^ 16) code < 2 ^ 16 := by
    intro digits
    induction digits with
    | nil => exact fun code hcode => hcode
    | cons c digits ih => exact fun code _ => ih _ (Nat.mod_lt _ (by decide))
  exact hfold _ 0 (by decide)

theorem cmdList_of_turns (hturns : AllInTurn answering [] pieces) :
    (runPieces pieces).ftpSession.cmdList.reverse.map
    (fun cmd => (cmd.cmd, cmd.args, cmd.ansList)) =
      dialogueOf answering pieces := by
  have hkeeps := Ftp.keeps_of_allInTurn (Ftp.keeps_nil answering) hturns pieces (List.prefix_refl _)
  rw [List.nil_append] at hkeeps
  have hlog := congrArg Ftp.FtpSession.log hkeeps.session
  rwa [Ftp.loggedSession_log] at hlog

theorem code_lt_of_dialogue {logged : LoggedCmd} (h : logged ∈ dialogueOf answering pieces) :
    ∀ ans ∈ logged.2.2, ans.code < 2 ^ 16 := by
  obtain ⟨i, hi, rfl⟩ := List.mem_mapIdx.1 h
  intro ans hans
  obtain ⟨r, -, rfl⟩ := List.mem_map.1 hans
  exact strToUint16_lt r.1.1

theorem ftpRecord_of_turns (hturns : AllInTurn answering [] pieces) :
    ftpRecord (runPieces pieces).ftpSession (loginRun pieces) =
      dialogueRecord answering pieces := by
  have hcmds : (runPieces pieces).ftpSession.cmdList.map cmdRecord =
      (dialogueOf answering pieces).reverse.map loggedRecord := by
    rw [← cmdList_of_turns hturns, ← List.map_reverse, List.reverse_reverse, List.map_map]
    rfl
  rw [ftpRecord, dialogueRecord, hcmds, Ftp.loginRun_firstArgs hturns]

theorem toNat_ansCode {ans : FtpAns} (h : ans.code < 2 ^ 16) :
    (ansRecord ans).code.toNat = ans.code :=
  UInt16.toNat_ofNat_of_lt' h

theorem shownAns_iff {got : FTPAns} {ans : FtpAns} (h : ans.code < 2 ^ 16) :
    got.Same (ansRecord ans) ↔ ShownAns got ans := by
  constructor
  · rintro ⟨hcode, hphrase⟩
    exact ⟨hcode.trans (toNat_ansCode h), hphrase⟩
  · rintro ⟨hcode, hphrase⟩
    exact ⟨hcode.trans (toNat_ansCode h).symm, hphrase⟩

theorem forall₂_congr_right {α β : Type} {P Q : α → β → Prop} {xs : List α} {ys : List β}
    (h : ∀ y ∈ ys, ∀ x, P x y ↔ Q x y) : List.Forall₂ P xs ys ↔ List.Forall₂ Q xs ys := by
  induction ys generalizing xs with
  | nil => simp
  | cons y ys ih =>
    obtain ⟨hy, hys⟩ := List.forall_mem_cons.1 h
    cases xs with
    | nil => simp
    | cons x xs => rw [List.forall₂_cons, List.forall₂_cons, hy x, ih hys]

theorem shownCmd_iff {got : FTPCmd} {logged : LoggedCmd}
    (h : ∀ ans ∈ logged.2.2, ans.code < 2 ^ 16) :
    got.Same (loggedRecord logged) ↔ ShownCmd got logged := by
  have hans : List.Forall₂ FTPAns.Same got.ansList (logged.2.2.map ansRecord) ↔
      List.Forall₂ ShownAns got.ansList logged.2.2 := by
    rw [List.forall₂_map_right_iff]
    exact forall₂_congr_right fun ans hmem got => shownAns_iff (h ans hmem)
  exact ⟨fun hsame => ⟨hsame.cmd, hsame.args, hans.1 hsame.ansList⟩,
    fun hshown => ⟨hshown.cmd, hshown.args, hans.2 hshown.ansList⟩⟩

theorem shownCmds_iff {shown : List FTPCmd} :
    List.Forall₂ FTPCmd.Same shown ((dialogueOf answering pieces).reverse.map loggedRecord) ↔
      List.Forall₂ ShownCmd shown (dialogueOf answering pieces).reverse := by
  rw [List.forall₂_map_right_iff]
  exact forall₂_congr_right fun logged hmem got =>
    shownCmd_iff (code_lt_of_dialogue (List.mem_reverse.1 hmem))

theorem eq_decodeText {got : String} {bs : List UInt8} {replaced : List UInt8 → String}
    (h : SameText got bs) : got = decodeText replaced bs := by
  rw [← show utf8Bytes got = bs from h, decodeText_utf8Bytes]

theorem loginCode_of_shown {shown : List FTPCmd} {dialogue : List LoggedCmd}
    (h : List.Forall₂ ShownCmd shown dialogue) :
    ((shown.find? fun cmd => isHeader cmd.cmd "PASS").bind (·.ansList.head?)).elim 0 (·.code) =
      ((dialogue.find? fun logged => isHeader (decodeText env.replaced logged.1) "PASS").bind
        (·.2.2.head?)).elim 0 (·.code) := by
  induction h with
  | nil => rfl
  | @cons got logged shown dialogue hhead _ ih =>
    rw [List.find?_cons, List.find?_cons, ← eq_decodeText hhead.cmd]
    cases isHeader got.cmd "PASS" with
    | false => exact ih
    | true =>
      have hans := hhead.ansList
      cases hans' : got.ansList <;> cases hlogged : logged.2.2 <;> rw [hans', hlogged] at hans
      · simp [hans', hlogged]
      · cases hans
      · cases hans
      · obtain ⟨hcode, -⟩ := (List.forall₂_cons.1 hans).1
        simp [hans', hlogged, hcode]

/-- The commands and replies of a dialogue are shown as they took place, the newest command first,
with the login of its first `USER` and `PASS` and the code of the first reply to the last `PASS`,
exactly if every text is UTF-8 and no text and no list is longer than Java counts. -/
theorem ftp_dialogue_reported (ht : Storable t) (hturns : AllInTurn answering [] pieces) :
    Agrees (FTPSession.parse env)
      (protoSessionStore t
        (ftpSessionFormat (ftpRecord (runPieces pieces).ftpSession (loginRun pieces))))
      (FtpShown env · t answering pieces) ↔ FtpReadable (dialogueRecord answering pieces) := by
  rw [ftpRecord_of_turns hturns]
  constructor
  · rintro ⟨got, hrun, h⟩
    exact readable_of_ftp_agrees ht
      ⟨got, hrun, h.sessionEntry, h.user, h.passwd, shownCmds_iff.2 h.cmdList⟩
  · intro hreadable
    have hagrees : Agrees (FTPSession.parse env)
        (protoSessionStore t (ftpSessionFormat (dialogueRecord answering pieces)))
        (·.Same t (dialogueRecord answering pieces)) := ftp_agrees_of_readable ht hreadable
    obtain ⟨got, hrun, hsame⟩ := hagrees
    have hshown := shownCmds_iff.1 hsame.cmdList
    exact ⟨got, hrun, hsame.sessionEntry, hsame.user, hsame.passwd, hshown,
      loginCode_of_shown hshown⟩

def loginPieces : List ControlPiece :=
  [.response (Http.bytesOf "220 ready\r\n"), .request (Http.bytesOf "USER a"),
    .request (Http.bytesOf "b\r\n"), .response (Http.bytesOf "331 pass\r\n"),
    .request (Http.bytesOf "PASS c\r\n"), .response (Http.bytesOf "230 in\r\n")]

theorem loginPieces_reported :
    Agrees (FTPSession.parse plainEnv)
      (protoSessionStore (smallSession PROTOCOL_FTP)
        (ftpSessionFormat (ftpRecord (runPieces loginPieces).ftpSession (loginRun loginPieces))))
      (FtpShown plainEnv · (smallSession PROTOCOL_FTP) Ftp.afterGreeting loginPieces) ↔
        FtpReadable (dialogueRecord Ftp.afterGreeting loginPieces) :=
  ftp_dialogue_reported { smallSession_counters _ with protocolId := by decide } (by decide +kernel)

end Reported

end CloudHands.Proto

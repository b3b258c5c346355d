import CloudHands.Proto.Store

/-!
# FTP sessions

`do_ftp_session_format` and `FTPSession.parse`. The commands and their answers are elements of
arrays, each with a key before its map, and the Java side reads these keys.
-/

namespace CloudHands.Proto

open Lib Lib.TokenReader Msgpack Japi

structure FtpAnsRecord where
  code : UInt16
  phrase : List UInt8

structure FtpCmdRecord where
  cmd : List UInt8
  args : List UInt8
  ansList : List FtpAnsRecord

/-- The stored fields of `ch_ftp_session_t`, a null text being empty. The counts `cmd_n` and
`ans_n` go up with every element of the lists. -/
structure FtpRecord where
  user : List UInt8
  passwd : List UInt8
  cmdList : List FtpCmdRecord

def ftpAnsFormat (ans : FtpAnsRecord) : List Token :=
  mapStart "ans" 2 ++ (writeUint16 "code" ans.code ++ writeKv "phrase" ans.phrase)

def ftpCmdFormat (cmd : FtpCmdRecord) : List Token :=
  mapStart "cmd" 3 ++ (writeKv "cmdName" cmd.cmd ++ (writeKv "cmdArgs" cmd.args ++
    (arrayStart "ansList" (count32 cmd.ansList) ++ cmd.ansList.flatMap ftpAnsFormat)))

def ftpSessionFormat (r : FtpRecord) : List Token :=
  mapStart "ftpSession" 3 ++ (writeKv "user" r.user ++ (writeKv "passwd" r.passwd ++
    (arrayStart "cmdList" (count32 r.cmdList) ++ r.cmdList.flatMap ftpCmdFormat)))

structure FTPAns where
  code : ℕ
  phrase : String

structure FTPCmd where
  cmd : String
  args : String
  ansList : List FTPAns

structure FTPSession where
  sessionEntry : TCPSessionEntry
  user : String
  passwd : String
  cmdList : List FTPCmd

def FTPAns.parse (env : Env) : Unpacker FTPAns := do
  parseMapOf 2
  let code ← parseInt
  let phrase ← parseText env.replaced
  pure ⟨code, phrase⟩

def FTPCmd.parse (env : Env) : Unpacker FTPCmd := do
  parseMapOf 3
  let cmd ← parseText env.replaced
  let args ← parseText env.replaced
  let ansList ← parseArrayTimes (FTPAns.parse env)
  pure ⟨cmd, args, ansList⟩

def FTPSession.parse (env : Env) : Unpacker FTPSession := do
  let n ← unpackMapHeader
  check (n = 2)
  let entry ← parseCommon
  parseMapOf 3
  let user ← parseText env.replaced
  let passwd ← parseText env.replaced
  let cmdList ← parseArrayTimes (FTPCmd.parse env)
  pure ⟨entry, user, passwd, cmdList⟩

structure FTPAns.Same (got : FTPAns) (ans : FtpAnsRecord) : Prop where
  code : got.code = ans.code.toNat
  phrase : SameText got.phrase ans.phrase

structure FTPCmd.Same (got : FTPCmd) (c : FtpCmdRecord) : Prop where
  cmd : SameText got.cmd c.cmd
  args : SameText got.args c.args
  ansList : List.Forall₂ FTPAns.Same got.ansList c.ansList

structure FTPSession.Same (got : FTPSession) (t : TcpSession) (r : FtpRecord) : Prop where
  sessionEntry : got.sessionEntry.Same t
  user : SameText got.user r.user
  passwd : SameText got.passwd r.passwd
  cmdList : List.Forall₂ FTPCmd.Same got.cmdList r.cmdList

def FtpAnsReadable (ans : FtpAnsRecord) : Prop := TextReadable ans.phrase

structure FtpCmdReadable (c : FtpCmdRecord) : Prop where
  cmd : TextReadable c.cmd
  args : TextReadable c.args
  ansList : ListReadable FtpAnsReadable c.ansList

structure FtpReadable (r : FtpRecord) : Prop where
  user : TextReadable r.user
  passwd : TextReadable r.passwd
  cmdList : ListReadable FtpCmdReadable r.cmdList

section Commands

variable {env : Env} {rest rest' : List Token}

def ansOf (env : Env) (ans : FtpAnsRecord) :
    FTPAns := ⟨ans.code.toNat, decodeText env.replaced ans.phrase⟩

theorem yields_ans {ans : FtpAnsRecord} (h : FtpAnsReadable ans) :
    Yields (FTPAns.parse env) (ftpAnsFormat ans) (ansOf env ans) :=
  (yields_mapOf (by omega) rfl).bind <| (yields_uint16Field ans.code rfl).bind <|
    (yields_text h.1).bind_pure (yields_pure _)

theorem ansOf_same {ans : FtpAnsRecord} (h : FtpAnsReadable ans) : (ansOf env ans).Same ans :=
  ⟨rfl, h.same⟩

theorem ans_of_same {ans : FtpAnsRecord} {got : FTPAns}
    (hrun : (FTPAns.parse env).run (ftpAnsFormat ans ++ rest) = some (got, rest'))
    (hsame : got.Same ans) : FtpAnsReadable ans ∧ rest' = rest := by
  simp only [ftpAnsFormat, List.append_assoc] at hrun
  rw [FTPAns.parse, (yields_mapOf (by omega) rfl).bind_run,
    (yields_uint16Field ans.code rfl).bind_run] at hrun
  obtain ⟨hphrase, hrun⟩ := text_bind_run hrun
  obtain ⟨rfl, rfl⟩ := Prod.mk.inj (Option.some.inj hrun)
  exact ⟨⟨hphrase, decodeText_same_iff.1 hsame.phrase⟩, rfl⟩

def cmdOf (env : Env) (cmd : FtpCmdRecord) : FTPCmd :=
  ⟨decodeText env.replaced cmd.cmd, decodeText env.replaced cmd.args, cmd.ansList.map (ansOf env)⟩

theorem yields_cmd {cmd : FtpCmdRecord} (h : FtpCmdReadable cmd) :
    Yields (FTPCmd.parse env) (ftpCmdFormat cmd) (cmdOf env cmd) :=
  (yields_mapOf (by omega) rfl).bind <| (yields_text h.cmd.1).bind <| (yields_text h.args.1).bind <|
    (yields_arrayTimes rfl h.ansList.1 fun ans hans => yields_ans (h.ansList.2 ans hans)).bind_pure
      (yields_pure _)

theorem cmdOf_same {cmd : FtpCmdRecord} (h : FtpCmdReadable cmd) : (cmdOf env cmd).Same cmd :=
  ⟨h.cmd.same, h.args.same, h.ansList.same fun _ => ansOf_same⟩

theorem cmd_of_same {cmd : FtpCmdRecord} {got : FTPCmd}
    (hrun : (FTPCmd.parse env).run (ftpCmdFormat cmd ++ rest) = some (got, rest'))
    (hsame : got.Same cmd) : FtpCmdReadable cmd ∧ rest' = rest := by
  simp only [ftpCmdFormat, List.append_assoc] at hrun
  rw [FTPCmd.parse, (yields_mapOf (by omega) rfl).bind_run] at hrun
  obtain ⟨hcmd, hrun⟩ := text_bind_run hrun
  obtain ⟨hargs, hrun⟩ := text_bind_run hrun
  rw [← List.append_assoc] at hrun
  obtain ⟨ansList, mid, hans, hrun⟩ := run_bind_eq_some.1 hrun
  obtain ⟨rfl, rfl⟩ := Prod.mk.inj (Option.some.inj hrun)
  obtain ⟨hlist, hrest⟩ := arrayTimes_of_same rfl ans_of_same hans hsame.ansList
  exact ⟨⟨⟨hcmd, decodeText_same_iff.1 hsame.cmd⟩, ⟨hargs, decodeText_same_iff.1 hsame.args⟩,
    hlist⟩,
    hrest⟩

end Commands

section Record

variable {env : Env} {t : TcpSession} {r : FtpRecord}

theorem ftp_agrees_of_readable (ht : Storable t) (h : FtpReadable r) :
    Agrees (FTPSession.parse env) (protoSessionStore t (ftpSessionFormat r)) (·.Same t r) := by
  refine ⟨⟨commonOf t, decodeText env.replaced r.user, decodeText env.replaced r.passwd,
    r.cmdList.map (cmdOf env)⟩, ?_, ⟨commonOf_same t, h.user.same, h.passwd.same,
    h.cmdList.same fun _ => cmdOf_same⟩⟩
  rw [FTPSession.parse, record_run (P := (· = 2)) rfl ht]
  exact Yields.run <| (yields_mapOf (by omega) rfl).bind <| (yields_text h.user.1).bind <|
    (yields_text h.passwd.1).bind <|
    (yields_arrayTimes rfl h.cmdList.1 fun cmd hcmd => yields_cmd (h.cmdList.2 cmd hcmd)).bind_pure
      (yields_pure _)

theorem readable_of_ftp_agrees (ht : Storable t)
    (h : Agrees (FTPSession.parse env) (protoSessionStore t (ftpSessionFormat r)) (·.Same t r)) :
    FtpReadable r := by
  obtain ⟨got, hrun, hsame⟩ := h
  rw [FTPSession.parse, record_run (P := (· = 2)) rfl ht, ftpSessionFormat,
    (yields_mapOf (by omega) rfl).bind_run] at hrun
  obtain ⟨huser, hrun⟩ := text_bind_run hrun
  obtain ⟨hpasswd, hrun⟩ := text_bind_run hrun
  obtain ⟨cmdList, mid, hcmd, hrun⟩ := run_bind_eq_some.1 hrun
  obtain ⟨rfl, rfl⟩ := Prod.mk.inj (Option.some.inj hrun)
  rw [← List.append_nil (arrayStart _ _ ++ _)] at hcmd
  obtain ⟨hlist, -⟩ := arrayTimes_of_same rfl cmd_of_same hcmd hsame.cmdList
  exact ⟨⟨huser, decodeText_same_iff.1 hsame.user⟩, ⟨hpasswd, decodeText_same_iff.1 hsame.passwd⟩,
    hlist⟩

end Record

end CloudHands.Proto

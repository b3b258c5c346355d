import CloudHands.Http.Session
import CloudHands.Lib.Decimal
import Mathlib.Data.List.DropRight

/-!
# FTP control sessions

`ch_ftp_session.c` and the lines of `do_ftp_session_parse.c`. A command is known by its
number, since the answers and the data connections hold on to it while it changes. Texts are
C strings: they end before the first zero byte, and one that is null is empty here.
-/

namespace CloudHands.Ftp

open Lib Http

def isSpaceByte (c : UInt8) : Bool := c = 32 || (9 ≤ c && c ≤ 13)

def isDigitByte (c : UInt8) : Bool := 48 ≤ c && c ≤ 57

/-- `_line_str_parse`: the first word of a line and what follows it. -/
def lineStrParse (line : List UInt8) : List UInt8 × List UInt8 :=
  let line := line.dropWhile isSpaceByte
  (line.takeWhile (!isSpaceByte ·), (line.dropWhile (!isSpaceByte ·)).dropWhile isSpaceByte)

/-- The copy that `ch_pstrndup` makes. -/
def cString (s : List UInt8) : List UInt8 := s.takeWhile (· ≠ 0)

def strToUint16 (s : List UInt8) : ℕ :=
  (s.takeWhile isDigitByte).foldl (fun code c => (code * 10 + (c.toNat - 48)) % 2 ^ 16) 0

/-- The number of one part of an address, by `atoi` into a `uint16_t`. -/
def addrPart (token : List UInt8) : ℕ :=
  (strtol (token.map fun b : UInt8 => Char.ofNat b.toNat) % 2 ^ 16).toNat

/-- `_ip_port_get`. Only the first 63 bytes are looked at, and `strtok` passes over empty
parts. -/
def ipPortGet (str : List UInt8) (isPasv : Bool) : ℕ × ℕ :=
  let str := if isPasv then (str.dropWhile (!isDigitByte ·)).rdropWhile (!isDigitByte ·) else str
  let parts := (((str.take 63).splitOn 44).filter (· ≠ [])).map addrPart
  let part (i : ℕ) := parts.getD i 0
  ((part 0 + part 1 * 2 ^ 8 + part 2 * 2 ^ 16 + part 3 * 2 ^ 24) % 2 ^ 32,
    (part 4 * 2 ^ 8 + part 5) % 2 ^ 16)

/-- `ch_ftp_ans_t`. -/
structure FtpAns where
  code : ℕ
  phrase : List UInt8
  deriving DecidableEq, Repr

/-- `ch_ftp_cmd_t`; `ftpDcon` is the number of the data connection it refers to. -/
structure FtpCmd where
  id : ℕ
  cmd : List UInt8
  args : List UInt8
  ftpDcon : Option ℕ
  ansList : List FtpAns
  deriving DecidableEq, Repr

/-- `ch_ftp_session_t`, the newest command first; the length of the list is `cmd_n`. -/
structure FtpSession where
  cmdList : List FtpCmd
  curCmd : Option ℕ
  deriving DecidableEq, Repr

def ftpSessionCreate : FtpSession := ⟨[], none⟩

def isCmd (cmd : FtpCmd) (name : String) : Bool := (bytesOf name).isPrefixOf cmd.cmd

namespace FtpSession

/-- `ch_ftp_session_cmd_add`. -/
def cmdAdd (s : FtpSession) (cmdStr argsStr : List UInt8) : FtpSession :=
  if cmdStr = [] then s
  else
    { cmdList := ⟨s.cmdList.length, cString cmdStr, cString argsStr, none, []⟩ :: s.cmdList
      curCmd := some s.cmdList.length }

def mapCmd (s : FtpSession) (id : ℕ) (f : FtpCmd → FtpCmd) : FtpSession :=
  { s with cmdList := s.cmdList.map fun cmd => if cmd.id = id then f cmd else cmd }

def setFtpDcon (s : FtpSession) (id : ℕ) (d : Option ℕ) : FtpSession :=
  s.mapCmd id fun cmd => { cmd with ftpDcon := d }

/-- `ch_ftp_session_ans_add`: the answer with the number of its command, unless the line is
ignored. -/
def ansAdd (s : FtpSession) (codeStr phraseStr : List UInt8) : Option (FtpSession × ℕ × FtpAns) :=
  match s.curCmd with
  | none => none
  | some id =>
    let ans : FtpAns := ⟨strToUint16 codeStr, cString phraseStr⟩
    if codeStr = [] ∨ ans.code = 0 then none
    else some (s.mapCmd id fun cmd => { cmd with ansList := cmd.ansList ++ [ans] }, id, ans)

def getCmd (s : FtpSession) (id : ℕ) : Option FtpCmd := s.cmdList.find? (·.id = id)

/-- `ch_ftp_session_find_last_cmd`. -/
def findLastCmd (s : FtpSession) (name : String) : Option FtpCmd := s.cmdList.find? (isCmd · name)

/-- `ch_ftp_session_fpath_name_set`: the path and the name of the file that is transferred. -/
def fpathNameSet (s : FtpSession) : List UInt8 × List UInt8 :=
  let fname :=
    ((s.cmdList.find? fun cmd => isCmd cmd "RETR" || isCmd cmd "STOR").map (·.args)).getD []
  let fpath := if fname = [] then ((s.findLastCmd "LIST").map (·.args)).getD [] else []
  let pwd := (s.findLastCmd "PWD").bind (·.ansList.head?)
  (if fpath = [] then (pwd.map (·.phrase)).getD [] else fpath, fname)

def transferCmd (s : FtpSession) : Option FtpCmd :=
  match s.findLastCmd "PASV" with
  | some cmd => some cmd
  | none => s.findLastCmd "PORT"

end FtpSession

theorem mem_mapCmd {s : FtpSession} {id : ℕ} {f : FtpCmd → FtpCmd} {cmd : FtpCmd} :
    cmd ∈ (s.mapCmd id f).cmdList ↔
      ∃ old ∈ s.cmdList, cmd = if old.id = id then f old else old := by
  simp [FtpSession.mapCmd, eq_comm]

def SameDcons (s s' : FtpSession) : Prop :=
  ∀ cmd ∈ s'.cmdList, ∀ d, cmd.ftpDcon = some d →
    ∃ old ∈ s.cmdList, old.id = cmd.id ∧ old.ftpDcon = some d

theorem SameDcons.refl (s : FtpSession) : SameDcons s s := fun cmd hcmd _ hd => ⟨cmd, hcmd, rfl, hd⟩

theorem cmdAdd_sameDcons (s : FtpSession) (cmdStr argsStr : List UInt8) :
    SameDcons s (s.cmdAdd cmdStr argsStr) := by
  unfold FtpSession.cmdAdd
  split
  · exact .refl s
  · intro cmd hcmd d hd
    rcases List.mem_cons.1 hcmd with rfl | hcmd
    · cases hd
    · exact ⟨cmd, hcmd, rfl, hd⟩

theorem ansAdd_sameDcons {s s' : FtpSession} {codeStr phraseStr : List UInt8} {id : ℕ}
    {ans : FtpAns}
    (h : s.ansAdd codeStr phraseStr = some (s', id, ans)) : SameDcons s s' := by
  unfold FtpSession.ansAdd at h
  split at h
  · cases h
  · dsimp only at h
    split_ifs at h
    cases h
    intro cmd hcmd d hd
    obtain ⟨old, hold, rfl⟩ := mem_mapCmd.1 hcmd
    refine ⟨old, hold, ?_, ?_⟩
    · split <;> rfl
    · rw [← hd]
      split <;> rfl

theorem mem_setFtpDcon_none {s : FtpSession} {id d : ℕ} {cmd : FtpCmd}
    (hcmd : cmd ∈ (s.setFtpDcon id none).cmdList) (hd : cmd.ftpDcon = some d) :
    cmd ∈ s.cmdList ∧ cmd.id ≠ id := by
  obtain ⟨old, hold, rfl⟩ := mem_mapCmd.1 hcmd
  split at hd
  · cases hd
  · rename_i hne
    rw [if_neg hne]
    exact ⟨hold, hne⟩

theorem mem_setFtpDcon_some {s : FtpSession} {id d d' : ℕ} {cmd : FtpCmd}
    (hcmd : cmd ∈ (s.setFtpDcon id (some d')).cmdList) (hd : cmd.ftpDcon = some d) :
    (cmd.id = id ∧ d = d') ∨ (cmd ∈ s.cmdList ∧ cmd.id ≠ id) := by
  obtain ⟨old, hold, rfl⟩ := mem_mapCmd.1 hcmd
  split at hd
  · rename_i heq
    rw [if_pos heq]
    exact .inl ⟨heq, (Option.some.inj hd).symm⟩
  · rename_i hne
    rw [if_neg hne]
    exact .inr ⟨hold, hne⟩

theorem findLastCmd_mem {s : FtpSession} {name : String} {cmd : FtpCmd}
    (h : s.findLastCmd name = some cmd) : cmd ∈ s.cmdList := List.mem_of_find?_eq_some h

theorem transferCmd_mem {s : FtpSession} {cmd : FtpCmd} (h : s.transferCmd = some cmd) :
    cmd ∈ s.cmdList := by
  unfold FtpSession.transferCmd at h
  split at h
  · rename_i pasv hpasv
    cases h
    exact findLastCmd_mem hpasv
  · exact findLastCmd_mem h

end CloudHands.Ftp

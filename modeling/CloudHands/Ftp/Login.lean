import CloudHands.Ftp.Log

/-!
# The login of an FTP control connection

The fields `user` and `passwd`, which `ch_ftp_session_cmd_add` sets of the first command that
has an argument and is taken for `USER` or `PASS`.
-/

namespace CloudHands.Ftp

open Lib Http
open PpDataInput (linesOf take_lineLen dropCR)

/-- The fields `user` and `passwd` of `ch_ftp_session_t`, where they are not null. -/
structure FtpLogin where
  user : Option (List UInt8)
  passwd : Option (List UInt8)
deriving DecidableEq, Repr

/-- `IS_CMD_STR`: the name is compared over the length of the word, so that a part of it is
taken for it as well. -/
def isCmdStr (word : List UInt8) (name : String) : Bool := word.isPrefixOf (bytesOf name ++ [0])

/-- The part of `ch_ftp_session_cmd_add` that sets the login. -/
def FtpLogin.cmdAdd (l : FtpLogin) (cmd : List UInt8 × List UInt8) : FtpLogin :=
  if cmd.1 = [] then l
  else
    let cmdArgs := if cmd.2 = [] then none else some (cString cmd.2)
    if l.user = none ∧ isCmdStr cmd.1 "USER" then { l with user := cmdArgs }
    else if l.passwd = none ∧ isCmdStr cmd.1 "PASS" then { l with passwd := cmdArgs }
    else l

/-- The words of the line that `do_ftp_session_request_parse` reads. -/
def requestWords (entry : FtpSessionEntry) (data : List UInt8) : Option (List UInt8 × List UInt8) :=
  (lineRead (readPrefare entry.dataInputReq data)).map fun r => lineStrParse
  (r.1.take (lineLen r.1))

def FtpLogin.step (l : FtpLogin) (entry : FtpSessionEntry) : ControlPiece → FtpLogin
  | .request data => (requestWords entry data).elim l l.cmdAdd
  | .response _ => l

def loginRun (pieces : List ControlPiece) : FtpLogin :=
  (pieces.foldl (fun r piece => (FtpSessionEntry.step r.1 piece, FtpLogin.step r.2 r.1 piece))
    (ftpSessionEntryCreate, ⟨none, none⟩)).2

section Turns

variable {answering : Answering} {pieces : List ControlPiece} {piece : ControlPiece}
  {entry : FtpSessionEntry} {data : List UInt8} {w : List UInt8 × List UInt8}

theorem parse_requestWords (entry : FtpSessionEntry) (data : List UInt8) :
    (ftpSessionRequestParse entry data).ftpSession =
      (requestWords entry data).elim entry.ftpSession fun w => entry.ftpSession.cmdAdd w.1 w.2 := by
  rw [ftpSessionRequestParse, requestWords]
  cases lineRead (readPrefare entry.dataInputReq data) with
  | none => rfl
  | some r => rfl

theorem requestWords_no_zero {stream spaces : List UInt8} (hspaces : LF ∉ spaces)
    (hheld : (linesOf stream).2 = spaces ++ entry.dataInputReq)
    (hturn : LF ∈ (linesOf stream).2 ++ data → 0 ∉ ((linesOf stream).2 ++ data).takeWhile (· ≠ LF))
    (hw : requestWords entry data = some w) : 0 ∉ w.1 ∧ 0 ∉ w.2 := by
  obtain ⟨r, hr, rfl⟩ := Option.map_eq_some_iff.1 hw
  rw [readPrefare] at hr
  rw [hheld, List.append_assoc] at hturn
  generalize entry.dataInputReq ++ data = din at hr hturn
  rcases line_or_not_mem LF din with ⟨text, rest, htext, rfl⟩ | hlf
  · obtain ⟨raw, hread, hraw⟩ := take_lineLen rest htext
    obtain rfl := Option.some.inj (hr.symm.trans hread)
    have hne : ∀ b ∈ spaces ++ text, decide (b ≠ LF) = true := by
      intro b hb
      rcases List.mem_append.1 hb with hb | hb
      · simpa using fun heq : b = LF => hspaces (heq ▸ hb)
      · simpa using fun heq : b = LF => htext (heq ▸ hb)
    have hzero := hturn (by simp)
    rw [← List.append_assoc, List.takeWhile_append_of_pos hne, List.takeWhile_cons_of_neg (by simp),
      List.append_nil] at hzero
    rw [hraw]
    exact not_mem_lineStrParse fun hmem => hzero (List.mem_append_right _ (dropCR_subset text hmem))
  · rw [lineRead_eq_none.2 hlf] at hr
    cases hr

theorem cmdAdd_ne_create {w : List UInt8 × List UInt8} (hword : w.1 ≠ []) :
    ftpSessionCreate.cmdAdd w.1 w.2 ≠ ftpSessionCreate := by
  rw [FtpSession.cmdAdd, if_neg hword]
  exact fun heq => absurd (congrArg FtpSession.cmdList heq) (List.cons_ne_nil _ _)

theorem requestWords_step {stream spaces : List UInt8}
    (hspaces : ∀ b ∈ spaces, isSpaceByte b = true)
    (hheld : (linesOf stream).2 = spaces ++ entry.dataInputReq)
    (hturn : LF ∈ (linesOf stream).2 ++ data → 0 ∉ ((linesOf stream).2 ++ data).takeWhile (· ≠ LF) ∧
      ∀ b ∈ (((linesOf stream).2 ++ data).dropWhile (· ≠ LF)).drop 1, isSpaceByte b) :
    ∃ new, wordsOf (stream ++ data) = wordsOf stream ++ new ∧
      ∀ l : FtpLogin, (requestWords entry data).elim l l.cmdAdd = new.foldl FtpLogin.cmdAdd l := by
  have hlf : LF ∉ spaces := by
    have hnolf : LF ∉ (linesOf stream).2 := not_mem_cutLines_rest LF stream
    rw [hheld] at hnolf
    exact fun hmem => hnolf (List.mem_append_left _ hmem)
  -- a session without commands shows what the piece adds
  let fresh : FtpSessionEntry := { entry with ftpSession := ftpSessionCreate }
  have hfresh : (linesOf stream).2 = spaces ++ fresh.dataInputReq := hheld
  obtain ⟨-, -, hcmd⟩ := requestParse_step hspaces hfresh hturn
  have hwords : requestWords fresh data = requestWords entry data := rfl
  rw [parse_requestWords, hwords] at hcmd
  cases hw : requestWords entry data with
  | none =>
    rw [hw] at hcmd
    rcases hcmd with hsame | ⟨cmd, hadd⟩
    · exact ⟨[], by rw [hsame.1, List.append_nil], fun l => rfl⟩
    · exact absurd hadd.2.2.2.2.symm (cmdAdd_ne_create hadd.2.1)
  | some w =>
    rw [hw] at hcmd
    obtain ⟨hzero₁, hzero₂⟩ := requestWords_no_zero hlf hheld (fun hmem => (hturn hmem).1) hw
    rcases hcmd with hsame | ⟨cmd, hadd⟩
    · have hword : w.1 = [] := by
        by_contra hword
        exact cmdAdd_ne_create hword hsame.2
      exact ⟨[], by rw [hsame.1, List.append_nil], fun l => if_pos hword⟩
    · obtain ⟨hadd, hword, hzero, hzero', hsession⟩ := hadd
      have hword' : w.1 ≠ [] := by
        intro hnil
        rw [Option.elim_some, FtpSession.cmdAdd, if_pos hnil] at hsession
        exact cmdAdd_ne_create hword hsession.symm
      rw [Option.elim_some, FtpSession.cmdAdd, if_neg hword', FtpSession.cmdAdd, if_neg hword,
        cString_of_not_mem hzero₁, cString_of_not_mem hzero₂, cString_of_not_mem hzero,
        cString_of_not_mem hzero'] at hsession
      have hcmd := (List.cons.inj (congrArg FtpSession.cmdList hsession)).1
      obtain rfl : w = cmd := Prod.ext (congrArg FtpCmd.cmd hcmd) (congrArg FtpCmd.args hcmd)
      exact ⟨[w], hadd, fun l => rfl⟩

theorem inTurn_of_prefix {before pieces pre : List ControlPiece} {piece : ControlPiece}
    (hturns : AllInTurn answering before pieces) (hpre : pre ++ [piece] <+: pieces) :
    InTurn answering (before ++ pre) piece := by
  induction pieces generalizing before pre with
  | nil => exact absurd (List.prefix_nil.1 hpre) (by simp)
  | cons first pieces ih =>
    cases pre with
    | nil =>
      obtain rfl : piece = first := (List.cons_prefix_cons.1 hpre).1
      rw [List.append_nil]
      exact hturns.1
    | cons q pre =>
      obtain ⟨rfl, hrest⟩ := List.cons_prefix_cons.1 hpre
      have hturn := ih hturns.2 hrest
      rwa [List.append_assoc, List.singleton_append] at hturn

theorem loginRun_pair (pieces : List ControlPiece) :
    pieces.foldl (fun r piece => (FtpSessionEntry.step r.1 piece, FtpLogin.step r.2 r.1 piece))
      (ftpSessionEntryCreate, ⟨none, none⟩) = (runPieces pieces, loginRun pieces) := by
  induction pieces using List.reverseRecOn with
  | nil => rfl
  | append_singleton pieces piece ih =>
    rw [loginRun, runPieces, List.foldl_append, List.foldl_append, ih]
    rfl

theorem loginRun_concat (pieces : List ControlPiece) (piece : ControlPiece) :
    loginRun (pieces ++ [piece]) = (loginRun pieces).step (runPieces pieces) piece := by
  rw [loginRun, List.foldl_append, loginRun_pair]
  rfl

theorem loginRun_eq (hturns : AllInTurn answering [] pieces) :
    loginRun pieces = (commands pieces).foldl FtpLogin.cmdAdd ⟨none, none⟩ := by
  have hall : ∀ pre, pre <+: pieces →
      loginRun pre = (commands pre).foldl FtpLogin.cmdAdd ⟨none, none⟩ := by
    intro pre
    induction pre using List.reverseRecOn with
    | nil => exact fun _ => rfl
    | append_singleton pre piece ih =>
      intro hpre
      have hbefore : pre <+: pieces := (List.prefix_append pre [piece]).trans hpre
      have hkeeps := keeps_of_allInTurn (keeps_nil answering) hturns pre hbefore
      rw [List.nil_append] at hkeeps
      have hturn : InTurn answering ([] ++ pre) piece := inTurn_of_prefix hturns hpre
      rw [loginRun_concat, ih hbefore, commands, commands, requested_append]
      cases piece with
      | request data =>
        obtain ⟨spaces, hspaces, hheld⟩ := hkeeps.request
        obtain ⟨new, hnew, hlogin⟩ := requestWords_step hspaces hheld hturn
        rw [FtpLogin.step, hlogin, requested, requested, List.append_nil, hnew, List.foldl_append]
      | response data =>
        rw [FtpLogin.step, requested, requested, List.append_nil]
  exact hall pieces (List.prefix_refl _)

end Turns

section FirstArgs

variable {cmds : List (List UInt8 × List UInt8)} {cmd : List UInt8 × List UInt8} {l : FtpLogin}

def givesArgs (name : String) (cmd : List UInt8 × List UInt8) :
    Bool := isCmdStr cmd.1 name && cmd.2 ≠ []

def firstArgs (name : String) (cmds : List (List UInt8 × List UInt8)) : Option (List UInt8) :=
  (cmds.find? (givesArgs name)).map fun cmd => cString cmd.2

theorem firstArgs_cons (name : String) (cmd : List UInt8 × List UInt8)
    (cmds : List (List UInt8 × List UInt8)) :
    firstArgs name (cmd :: cmds) =
      if givesArgs name cmd then some (cString cmd.2) else firstArgs name cmds := by
  rw [firstArgs, List.find?_cons]
  cases hgives : givesArgs name cmd <;> rfl

theorem not_user_of_pass {word : List UInt8} (hword : word ≠ [])
    (huser : isCmdStr word "USER" = true) :
    isCmdStr word "PASS" = false := by
  obtain ⟨b, word, rfl⟩ := List.exists_cons_of_ne_nil hword
  have hb : b = 85 := by
    have hprefix := List.isPrefixOf_iff_prefix.1 huser
    exact (List.cons_prefix_cons.1 hprefix).1
  rw [hb]
  rfl

theorem cmdAdd_eq (hword : cmd.1 ≠ []) :
    l.cmdAdd cmd = ⟨l.user.or (firstArgs "USER" [cmd]), l.passwd.or (firstArgs "PASS" [cmd])⟩ := by
  have hpass := not_user_of_pass hword
  rw [FtpLogin.cmdAdd, if_neg hword, firstArgs_cons, firstArgs_cons, givesArgs, givesArgs]
  obtain ⟨user, passwd⟩ := l
  cases huser : isCmdStr cmd.1 "USER" with
  | true =>
    rw [hpass huser]
    cases user with
    | none => by_cases hargs : cmd.2 = [] <;> simp [hargs, firstArgs]
    | some user => simp [firstArgs]
  | false =>
    cases isCmdStr cmd.1 "PASS" with
    | true =>
      cases passwd with
      | none => by_cases hargs : cmd.2 = [] <;> simp [hargs, firstArgs]
      | some passwd => simp [firstArgs]
    | false => simp [firstArgs]

theorem firstArgs_or (name : String) (cmd : List UInt8 × List UInt8)
    (cmds : List (List UInt8 × List UInt8)) :
    (firstArgs name [cmd]).or (firstArgs name cmds) = firstArgs name (cmd :: cmds) := by
  rw [firstArgs_cons, firstArgs_cons]
  cases givesArgs name cmd <;> rfl

theorem foldl_cmdAdd (hwords : ∀ cmd ∈ cmds, cmd.1 ≠ []) :
    cmds.foldl FtpLogin.cmdAdd l = ⟨l.user.or (firstArgs "USER" cmds),
      l.passwd.or (firstArgs "PASS" cmds)⟩ := by
  induction cmds generalizing l with
  | nil => simp [firstArgs]
  | cons cmd cmds ih =>
    obtain ⟨hword, hrest⟩ := List.forall_mem_cons.1 hwords
    rw [List.foldl_cons, ih hrest, cmdAdd_eq hword, Option.or_assoc, Option.or_assoc, firstArgs_or,
      firstArgs_or]

theorem loginRun_firstArgs {answering : Answering} {pieces : List ControlPiece}
    (hturns : AllInTurn answering [] pieces) :
    loginRun pieces = ⟨firstArgs "USER" (commands pieces), firstArgs "PASS" (commands pieces)⟩ := by
  have hwords : ∀ cmd ∈ commands pieces, cmd.1 ≠ [] := fun cmd hcmd =>
    of_decide_eq_true (List.mem_filter.1 hcmd).2
  rw [loginRun_eq hturns, foldl_cmdAdd hwords, Option.none_or, Option.none_or]

end FirstArgs

end CloudHands.Ftp

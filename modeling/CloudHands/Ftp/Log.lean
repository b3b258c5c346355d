import CloudHands.Ftp.DataConnection
import CloudHands.Tcp.PpDataInput

/-!
# The log of an FTP control connection

`do_ftp_session_parse.c` over the pieces of a control connection. A request piece gives one line
at most and the rest of its input is skipped; a response piece gives all its lines, and they go to
the command that was read last.
-/

namespace CloudHands.Ftp

open Lib Http
open PpDataInput (linesOf linesOf_append linesOf_of_not_mem dropCR take_lineLen)

namespace FtpSession

def commandLine (s : FtpSession) (line : List UInt8) : FtpSession :=
  s.cmdAdd (lineStrParse line).1 (lineStrParse line).2

def replyLine (s : FtpSession) (line : List UInt8) : FtpSession :=
  match s.ansAdd (lineStrParse line).1 (lineStrParse line).2 with
  | none => s
  | some (s, _, _) => s

/-- The commands in the order in which they came, with their arguments and answers. -/
def log (s : FtpSession) : List (List UInt8 × List UInt8 × List FtpAns) :=
  s.cmdList.reverse.map fun cmd => (cmd.cmd, cmd.args, cmd.ansList)

end FtpSession

/-- `ch_ftp_session_entry_t`: the session, and the bytes that `data_input_req` and
`data_input_res` keep. -/
structure FtpSessionEntry where
  ftpSession : FtpSession
  dataInputReq : List UInt8
  dataInputRes : List UInt8
  deriving DecidableEq, Repr

def ftpSessionEntryCreate : FtpSessionEntry := ⟨ftpSessionCreate, [], []⟩

/-- `do_ftp_session_request_parse`. -/
def ftpSessionRequestParse (entry : FtpSessionEntry) (data : List UInt8) : FtpSessionEntry :=
  let din := readPrefare entry.dataInputReq data
  match lineRead din with
  | none => { entry with dataInputReq := din }
  | some (line, _) =>
    { entry with
      ftpSession := entry.ftpSession.commandLine (line.take (lineLen line))
      dataInputReq := [] }

/-- The loop of `do_ftp_session_response_parse`: the session and the bytes that are left. Every
line has a byte, so that there are no more lines than bytes. -/
def responseLoop : ℕ → FtpSession → List UInt8 → FtpSession × List UInt8
  | 0, s, din => (s, din)
  | n + 1, s, din =>
    match lineRead din with
    | none => (s, din)
    | some (line, rest) => responseLoop n (s.replyLine (line.take (lineLen line))) rest

/-- `do_ftp_session_response_parse`. -/
def ftpSessionResponseParse (entry : FtpSessionEntry) (data : List UInt8) : FtpSessionEntry :=
  let din := readPrefare entry.dataInputRes data
  let (ftpSession, rest) := responseLoop din.length entry.ftpSession din
  { entry with ftpSession := ftpSession, dataInputRes := rest }

inductive ControlPiece
  | request (data : List UInt8)
  | response (data : List UInt8)

def FtpSessionEntry.step (entry : FtpSessionEntry) : ControlPiece → FtpSessionEntry
  | .request data => ftpSessionRequestParse entry data
  | .response data => ftpSessionResponseParse entry data

def runPieces (pieces : List ControlPiece) : FtpSessionEntry :=
  pieces.foldl FtpSessionEntry.step ftpSessionEntryCreate

def requested : List ControlPiece → List UInt8
  | [] => []
  | .request data :: pieces => data ++ requested pieces
  | .response _ :: pieces => requested pieces

def responded : List ControlPiece → List UInt8
  | [] => []
  | .request _ :: pieces => responded pieces
  | .response data :: pieces => data ++ responded pieces

def wordsOf (stream : List UInt8) : List (List UInt8 × List UInt8) :=
  ((linesOf stream).1.map lineStrParse).filter (·.1 ≠ [])

def commands (pieces : List ControlPiece) : List (List UInt8 × List UInt8) :=
  wordsOf (requested pieces)

def replies (pieces : List ControlPiece) : List (List UInt8 × List UInt8) :=
  wordsOf (responded pieces)

/-- The command that each reply line answers, if it answers one. -/
abbrev Answering := ℕ → Option ℕ

def answersTo (answering : Answering) (replies : List (List UInt8 × List UInt8)) (i : ℕ) :
    List FtpAns :=
  (replies.zipIdx.filter fun r => answering r.2 = some i).map fun r => ⟨strToUint16 r.1.1, r.1.2⟩

/-- The log has all commands so far, each with the replies to it so far. -/
def Logged (answering : Answering) (pieces : List ControlPiece) : Prop :=
  (runPieces pieces).ftpSession.log =
    (commands pieces).mapIdx fun i cmd => (cmd.1, cmd.2, answersTo answering (replies pieces) i)

def Follows (answering : Answering) (pieces : List ControlPiece) : Prop :=
  ∀ pre, pre <+: pieces → ∀ j < (replies pre).length, ∀ i, answering j = some i →
    i < (commands pre).length

def AnswersLast (answering : Answering) (commands : List (List UInt8 × List UInt8))
    (r : (List UInt8 × List UInt8) × ℕ) : Prop :=
  (answering r.2 = none ∧ commands = []) ∨
    (commands ≠ [] ∧ answering r.2 = some (commands.length - 1) ∧ strToUint16 r.1.1 ≠ 0 ∧ 0 ∉ r.1.2)

instance (answering : Answering) (commands : List (List UInt8 × List UInt8))
    (r : (List UInt8 × List UInt8) × ℕ) : Decidable (AnswersLast answering commands r) :=
  inferInstanceAs (Decidable (_ ∨ _))

def InTurn (answering : Answering) (before : List ControlPiece) : ControlPiece → Prop
  | .request data =>
    let din := (linesOf (requested before)).2 ++ data
    LF ∈ din → 0 ∉ din.takeWhile (· ≠ LF) ∧ ∀ b ∈ (din.dropWhile (· ≠ LF)).drop 1, isSpaceByte b
  | .response data =>
    ∀ r ∈ (replies (before ++ [.response data])).zipIdx.drop (replies before).length,
      AnswersLast answering (commands before) r

instance (answering : Answering) (before : List ControlPiece) :
    (piece : ControlPiece) → Decidable (InTurn answering before piece)
  | .request _ => inferInstanceAs (Decidable (_ → _))
  | .response _ => inferInstanceAs (Decidable (∀ _ ∈ _, _))

def AllInTurn (answering : Answering) : List ControlPiece → List ControlPiece → Prop
  | _, [] => True
  | before, piece :: pieces =>
    InTurn answering before piece ∧ AllInTurn answering (before ++ [piece]) pieces

instance (answering : Answering) :
    (before pieces : List ControlPiece) → Decidable (AllInTurn answering before pieces)
  | _, [] => inferInstanceAs (Decidable True)
  | before, piece :: pieces =>
    have := instDecidableAllInTurn answering (before ++ [piece]) pieces
    inferInstanceAs (Decidable (_ ∧ _))

theorem responseLoop_eq {n : ℕ} (s : FtpSession) {din : List UInt8} (hn : din.length ≤ n) :
    responseLoop n s din = ((linesOf din).1.foldl FtpSession.replyLine s, (linesOf din).2) := by
  induction n generalizing s din with
  | zero =>
    obtain rfl := List.length_eq_zero_iff.1 (Nat.le_zero.1 hn)
    rfl
  | succ n ih =>
    rcases line_or_not_mem LF din with ⟨text, rest, htext, rfl⟩ | hlf
    · obtain ⟨raw, hread, hraw⟩ := take_lineLen rest htext
      have hrest : rest.length ≤ n := by
        simp only [List.length_append, List.length_cons] at hn
        omega
      rw [responseLoop, hread]
      dsimp only
      rw [hraw, ih _ hrest, linesOf, linesOf, cutLines_line htext]
      rfl
    · rw [responseLoop, lineRead_eq_none.2 hlf, linesOf_of_not_mem hlf]
      rfl

theorem wordsOf_append (stream data : List UInt8) :
    wordsOf (stream ++ data) = wordsOf stream ++ wordsOf ((linesOf stream).2 ++ data) := by
  rw [wordsOf, linesOf_append, List.map_append, List.filter_append]
  rfl

theorem lineStrParse_spaces {spaces : List UInt8} (h : ∀ b ∈ spaces, isSpaceByte b = true)
    (line : List UInt8) : lineStrParse (spaces ++ line) = lineStrParse line := by
  rw [lineStrParse, List.dropWhile_append_of_pos h]
  rfl

theorem lineStrParse_dropCR {spaces : List UInt8} (h : ∀ b ∈ spaces, isSpaceByte b = true)
    (text : List UInt8) : lineStrParse (dropCR (spaces ++ text)) = lineStrParse (dropCR text) := by
  cases text using List.reverseRecOn with
  | nil =>
    have hsub : ∀ b ∈ dropCR spaces, isSpaceByte b = true := by
      intro b hb
      rw [dropCR] at hb
      split at hb
      · exact h b (List.mem_of_mem_dropLast hb)
      · exact h b hb
    have hempty := lineStrParse_spaces hsub []
    rw [List.append_nil] at hempty
    rw [List.append_nil, hempty]
    rfl
  | append_singleton text b _ =>
    have hsplit : dropCR (spaces ++ (text ++ [b])) = spaces ++ dropCR (text ++ [b]) := by
      rw [dropCR, dropCR, ← List.append_assoc, List.getLast?_concat, List.getLast?_concat]
      split
      · rw [List.dropLast_concat, List.dropLast_concat]
      · rw [List.append_assoc]
    rw [hsplit, lineStrParse_spaces h]

theorem lineStrParse_all_spaces {line : List UInt8} (h : ∀ b ∈ line, isSpaceByte b = true) :
    lineStrParse line = ([], []) := by
  rw [← List.append_nil line, lineStrParse_spaces h]
  rfl

theorem dropCR_subset (text : List UInt8) : dropCR text ⊆ text := by
  rw [dropCR]
  split
  · exact List.dropLast_subset text
  · exact List.Subset.refl text

theorem wordsOf_spaces {stream : List UInt8} (h : ∀ b ∈ stream, isSpaceByte b = true) :
    wordsOf stream = [] := by
  refine List.filter_eq_nil_iff.2 fun word hword => ?_
  obtain ⟨line, hline, rfl⟩ := List.mem_map.1 hword
  obtain ⟨text, htext, rfl⟩ := List.mem_map.1 hline
  have hsub := List.Subset.trans (dropCR_subset text) ((cutLines_subset LF stream).1 text htext)
  rw [lineStrParse_all_spaces fun b hb => h b (hsub hb)]
  simp

theorem wordsOf_of_not_mem {stream : List UInt8} (h : LF ∉ stream) : wordsOf stream = [] := by
  rw [wordsOf, linesOf_of_not_mem h]
  rfl

theorem wordsOf_line {text : List UInt8} (htext : LF ∉ text) (rest : List UInt8) :
    wordsOf (text ++ LF :: rest) =
      if (lineStrParse (dropCR text)).1 = [] then wordsOf rest
      else lineStrParse (dropCR text) :: wordsOf rest := by
  rw [wordsOf, linesOf, cutLines_line htext, List.map_cons, List.map_cons, List.filter_cons]
  split_ifs <;> simp_all [wordsOf, linesOf]

theorem not_mem_lineStrParse {line : List UInt8} {b : UInt8} (h : b ∉ line) :
    b ∉ (lineStrParse line).1 ∧ b ∉ (lineStrParse line).2 := by
  constructor
  · exact fun hmem => h ((List.dropWhile_sublist _).subset ((List.takeWhile_sublist _).subset hmem))
  · exact fun hmem => h ((List.dropWhile_sublist _).subset ((List.dropWhile_sublist _).subset
      ((List.dropWhile_sublist _).subset hmem)))

theorem requestParse_step {entry : FtpSessionEntry} {stream data spaces : List UInt8}
    (hspaces : ∀ b ∈ spaces, isSpaceByte b = true)
    (hheld : (linesOf stream).2 = spaces ++ entry.dataInputReq)
    (hturn : LF ∈ (linesOf stream).2 ++ data → 0 ∉ ((linesOf stream).2 ++ data).takeWhile (· ≠ LF) ∧
      ∀ b ∈ (((linesOf stream).2 ++ data).dropWhile (· ≠ LF)).drop 1, isSpaceByte b) :
    (ftpSessionRequestParse entry data).dataInputRes = entry.dataInputRes ∧
      (∃ spaces', (∀ b ∈ spaces', isSpaceByte b = true) ∧ (linesOf (stream ++ data)).2 =
        spaces' ++ (ftpSessionRequestParse entry data).dataInputReq) ∧
      ((wordsOf (stream ++ data) = wordsOf stream ∧
          (ftpSessionRequestParse entry data).ftpSession = entry.ftpSession) ∨
        ∃ cmd, wordsOf (stream ++ data) = wordsOf stream ++ [cmd] ∧ cmd.1 ≠ [] ∧ 0 ∉ cmd.1 ∧
          0 ∉ cmd.2 ∧
          (ftpSessionRequestParse entry data).ftpSession =
            entry.ftpSession.cmdAdd cmd.1 cmd.2) := by
  have hnolf : LF ∉ (linesOf stream).2 := not_mem_cutLines_rest LF stream
  rw [wordsOf_append, linesOf_append, ftpSessionRequestParse, readPrefare]
  rw [hheld] at hnolf hturn ⊢
  rw [List.append_assoc] at hturn ⊢
  generalize entry.dataInputReq ++ data = din at hturn ⊢
  have hnolf' : LF ∉ spaces := fun hmem => hnolf (List.mem_append_left _ hmem)
  rcases line_or_not_mem LF din with ⟨text, rest, htext, rfl⟩ | hlf
  · obtain ⟨raw, hread, hraw⟩ := take_lineLen rest htext
    have hline : LF ∉ spaces ++ text := by simp [hnolf', htext]
    have hne : ∀ b ∈ spaces ++ text, decide (b ≠ LF) = true := by
      intro b hb
      simpa using fun heq : b = LF => hline (heq ▸ hb)
    rw [← List.append_assoc] at hturn ⊢
    obtain ⟨hzero, hrest⟩ := hturn (by simp)
    rw [List.takeWhile_append_of_pos hne, List.takeWhile_cons_of_neg (by simp),
      List.append_nil] at hzero
    rw [List.dropWhile_append_of_pos hne, List.dropWhile_cons_of_neg (by simp), List.drop_one,
      List.tail_cons] at hrest
    have hleft : ∀ b ∈ (linesOf rest).2, isSpaceByte b = true := fun b hb =>
      hrest b ((cutLines_subset LF rest).2 hb)
    have hstream : (linesOf (spaces ++ text ++ LF :: rest)).2 = (linesOf rest).2 := by
      rw [linesOf, cutLines_line hline, linesOf]
    have hnozero := not_mem_lineStrParse fun hmem => hzero (dropCR_subset (spaces ++ text) hmem)
    rw [hread, wordsOf_line hline, hstream, wordsOf_spaces hrest, lineStrParse_dropCR hspaces]
    rw [lineStrParse_dropCR hspaces] at hnozero
    refine ⟨rfl, ⟨_, hleft, (List.append_nil _).symm⟩, ?_⟩
    dsimp only
    rw [hraw, FtpSession.commandLine]
    by_cases hempty : (lineStrParse (dropCR text)).1 = []
    · rw [if_pos hempty, List.append_nil]
      exact .inl ⟨rfl, if_pos hempty⟩
    · rw [if_neg hempty]
      exact .inr ⟨_, rfl, hempty, hnozero.1, hnozero.2, rfl⟩
  · have hnone : LF ∉ spaces ++ din := by simp [hnolf', hlf]
    rw [lineRead_eq_none.2 hlf, wordsOf_of_not_mem hnone, linesOf_of_not_mem hnone]
    exact ⟨rfl, ⟨spaces, hspaces, rfl⟩, .inl ⟨List.append_nil _, rfl⟩⟩

def loggedSession (answering : Answering) (commands replies : List (List UInt8 × List UInt8)) :
    FtpSession :=
  ⟨(commands.mapIdx fun i cmd => ⟨i, cmd.1, cmd.2, none, answersTo answering replies i⟩).reverse,
    if commands = [] then none else some (commands.length - 1)⟩

variable {answering : Answering} {cmds reps : List (List UInt8 × List UInt8)}

theorem loggedSession_log :
    (loggedSession answering cmds reps).log =
      cmds.mapIdx fun i cmd => (cmd.1, cmd.2, answersTo answering reps i) := by
  rw [FtpSession.log, loggedSession, List.reverse_reverse]
  exact List.ext_getElem (by simp) (by simp)

theorem cString_of_not_mem {s : List UInt8} (h : 0 ∉ s) : cString s = s := by
  rw [cString, List.takeWhile_eq_self_iff]
  intro b hb
  simpa using fun heq : b = 0 => h (heq ▸ hb)

theorem cmdAdd_loggedSession {cmd : List UInt8 × List UInt8} (hword : cmd.1 ≠ [])
    (hzero : 0 ∉ cmd.1)
    (hzero' : 0 ∉ cmd.2) (hfollows : ∀ j < reps.length, answering j ≠ some cmds.length) :
    (loggedSession answering cmds reps).cmdAdd cmd.1 cmd.2 =
      loggedSession answering (cmds ++ [cmd]) reps := by
  have hnone : answersTo answering reps cmds.length = [] := by
    rw [answersTo, List.map_eq_nil_iff, List.filter_eq_nil_iff]
    intro r hr
    simpa using hfollows r.2 (List.mem_zipIdx' hr).1
  rw [FtpSession.cmdAdd, if_neg hword, cString_of_not_mem hzero, cString_of_not_mem hzero']
  simp only [loggedSession, List.length_reverse, List.length_mapIdx, List.mapIdx_append,
    List.reverse_append]
  simp [hnone]

theorem answersTo_concat (r : List UInt8 × List UInt8) (i : ℕ) :
    answersTo answering (reps ++ [r]) i =
      answersTo answering reps i ++
        if answering reps.length = some i then [⟨strToUint16 r.1, r.2⟩] else [] := by
  rw [answersTo, List.zipIdx_append, List.filter_append, List.map_append, answersTo]
  simp only [List.zipIdx_singleton, Nat.zero_add, List.filter_cons, List.filter_nil,
    decide_eq_true_eq]
  split <;> rfl

theorem replyLine_loggedSession {line : List UInt8} (hword : (lineStrParse line).1 ≠ [])
    (hlast : AnswersLast answering cmds (lineStrParse line, reps.length)) :
    (loggedSession answering cmds reps).replyLine line =
      loggedSession answering cmds (reps ++ [lineStrParse line]) := by
  rcases hlast with ⟨-, rfl⟩ | ⟨hne, hanswering, hcode, hzero⟩
  · rfl
  have hans :
      (loggedSession answering cmds reps).ansAdd (lineStrParse line).1 (lineStrParse line).2 =
      some ((loggedSession answering cmds reps).mapCmd (cmds.length - 1) fun cmd =>
        { cmd with
          ansList :=
            cmd.ansList ++ [⟨strToUint16 (lineStrParse line).1, (lineStrParse line).2⟩] },
        cmds.length - 1, ⟨strToUint16 (lineStrParse line).1, (lineStrParse line).2⟩) := by
    have hcur : (loggedSession answering cmds reps).curCmd = some (cmds.length - 1) := if_neg hne
    rw [FtpSession.ansAdd, hcur, cString_of_not_mem hzero]
    exact if_neg (not_or.2 ⟨hword, hcode⟩)
  rw [FtpSession.replyLine, hans, FtpSession.mapCmd, loggedSession, loggedSession]
  dsimp only
  rw [List.map_reverse]
  congr 2
  refine List.ext_getElem (by simp) fun i hi hi' => ?_
  simp only [List.getElem_map, List.getElem_mapIdx, answersTo_concat, hanswering, Option.some.injEq]
  by_cases hlast : i = cmds.length - 1
  · rw [if_pos hlast, if_pos hlast.symm]
  · rw [if_neg hlast, if_neg (Ne.symm hlast), List.append_nil]

theorem zipIdx_drop_append (reps new : List (List UInt8 × List UInt8)) :
    (reps ++ new).zipIdx.drop reps.length = new.zipIdx reps.length := by
  rw [List.zipIdx_append, Nat.zero_add, List.drop_append_of_le_length (by simp),
    List.drop_of_length_le (by simp), List.nil_append]

theorem replyLine_of_empty {s : FtpSession} {line : List UInt8}
    (hempty : (lineStrParse line).1 = []) :
    s.replyLine line = s := by
  have hnone : s.ansAdd (lineStrParse line).1 (lineStrParse line).2 = none := by
    rw [FtpSession.ansAdd]
    split
    · rfl
    · exact if_pos (.inl hempty)
  rw [FtpSession.replyLine, hnone]

theorem replyLines_loggedSession {lines : List (List UInt8)}
    (hlast : ∀ r ∈ ((lines.map lineStrParse).filter (·.1 ≠ [])).zipIdx reps.length,
      AnswersLast answering cmds r) :
    lines.foldl FtpSession.replyLine (loggedSession answering cmds reps) =
      loggedSession answering cmds (reps ++ (lines.map lineStrParse).filter (·.1 ≠ [])) := by
  induction lines generalizing reps with
  | nil => rw [List.map_nil, List.filter_nil, List.append_nil, List.foldl_nil]
  | cons line lines ih =>
    rw [List.map_cons, List.filter_cons] at hlast ⊢
    rw [List.foldl_cons]
    by_cases hempty : (lineStrParse line).1 = []
    · rw [if_neg (by simpa using hempty)] at hlast ⊢
      rw [replyLine_of_empty hempty]
      exact ih hlast
    · rw [if_pos (by simpa using hempty)] at hlast ⊢
      obtain ⟨hfirst, hrest⟩ := List.forall_mem_cons.1 (List.zipIdx_cons ▸ hlast)
      rw [replyLine_loggedSession hempty hfirst, ih (by simpa using hrest), List.append_assoc]
      rfl

theorem requested_append (pieces : List ControlPiece) (piece : ControlPiece) :
    requested (pieces ++ [piece]) = requested pieces ++ requested [piece] := by
  induction pieces with
  | nil => rfl
  | cons p pieces ih =>
    cases p with
    | request data => rw [List.cons_append, requested, requested, ih, List.append_assoc]
    | response data => rw [List.cons_append, requested, requested, ih]

theorem responded_append (pieces : List ControlPiece) (piece : ControlPiece) :
    responded (pieces ++ [piece]) = responded pieces ++ responded [piece] := by
  induction pieces with
  | nil => rfl
  | cons p pieces ih =>
    cases p with
    | request data => rw [List.cons_append, responded, responded, ih]
    | response data => rw [List.cons_append, responded, responded, ih, List.append_assoc]

structure Keeps (answering : Answering) (pieces : List ControlPiece) : Prop where
  session :
    (runPieces pieces).ftpSession = loggedSession answering (commands pieces) (replies pieces)
  request : ∃ spaces, (∀ b ∈ spaces, isSpaceByte b = true) ∧
    (linesOf (requested pieces)).2 = spaces ++ (runPieces pieces).dataInputReq
  response : (runPieces pieces).dataInputRes = (linesOf (responded pieces)).2
  follows : ∀ j < (replies pieces).length, ∀ i, answering j = some i → i < (commands pieces).length

theorem keeps_nil (answering : Answering) : Keeps answering [] where
  session := rfl
  request := ⟨[], nofun, rfl⟩
  response := rfl
  follows := nofun

theorem Keeps.step {pieces : List ControlPiece} (h : Keeps answering pieces) {piece : ControlPiece}
    (hturn : InTurn answering pieces piece) : Keeps answering (pieces ++ [piece]) := by
  have hrun : runPieces (pieces ++ [piece]) = (runPieces pieces).step piece := by
    rw [runPieces, List.foldl_append]
    rfl
  cases piece with
  | request data =>
    obtain ⟨spaces, hspaces, hheld⟩ := h.request
    obtain ⟨hres, hreq, hcmd⟩ := requestParse_step hspaces hheld hturn
    have hrequested : requested (pieces ++ [.request data]) = requested pieces ++ data := by
      rw [requested_append]
      exact congrArg _ (List.append_nil data)
    have hresponded : responded (pieces ++ [.request data]) = responded pieces := by
      rw [responded_append]
      exact List.append_nil _
    refine ⟨?_, ?_, ?_, ?_⟩
    · rw [hrun, FtpSessionEntry.step, commands, replies, hrequested, hresponded]
      rcases hcmd with ⟨hsame, hsession⟩ | ⟨cmd, hadd, hword, hzero, hzero', hsession⟩
      · rw [hsession, hsame, h.session, commands, replies]
      · have hfollows : ∀ j < (replies pieces).length,
            answering j ≠ some (commands pieces).length :=
          fun j hj heq => lt_irrefl _ (h.follows j hj _ heq)
        rw [hsession, hadd, h.session, cmdAdd_loggedSession hword hzero hzero' hfollows, commands,
          replies]
    · rwa [hrun, FtpSessionEntry.step, hrequested]
    · rw [hrun, FtpSessionEntry.step, hresponded, hres, h.response]
    · rw [replies, commands, hrequested, hresponded]
      intro j hj i hi
      refine (h.follows j hj i hi).trans_le ?_
      rcases hcmd with ⟨hsame, -⟩ | ⟨cmd, hadd, -⟩
      · rw [hsame, commands]
      · rw [hadd, commands, List.length_append]
        exact Nat.le_add_right _ _
  | response data =>
    have hrequested : requested (pieces ++ [.response data]) = requested pieces := by
      rw [requested_append]
      exact List.append_nil _
    have hresponded : responded (pieces ++ [.response data]) = responded pieces ++ data := by
      rw [responded_append]
      exact congrArg _ (List.append_nil data)
    have hreplies : replies (pieces ++ [.response data]) =
        replies pieces ++ wordsOf ((linesOf (responded pieces)).2 ++ data) := by
      rw [replies, hresponded, wordsOf_append, replies]
    have hcommands : commands (pieces ++ [.response data]) = commands pieces := by
      rw [commands, hrequested, commands]
    have hlast :
        ∀ r ∈ (wordsOf ((linesOf (responded pieces)).2 ++ data)).zipIdx (replies pieces).length,
        AnswersLast answering (commands pieces) r := by
      rwa [InTurn, hreplies, zipIdx_drop_append] at hturn
    have hparse : ftpSessionResponseParse (runPieces pieces) data =
        { runPieces pieces with
          ftpSession :=
            loggedSession answering (commands pieces) (replies (pieces ++ [.response data]))
          dataInputRes := (linesOf (responded pieces ++ data)).2 } := by
      rw [ftpSessionResponseParse, readPrefare, h.response, h.session, responseLoop_eq _ le_rfl,
        replyLines_loggedSession hlast, hreplies, linesOf_append (responded pieces) data]
      rfl
    refine ⟨?_, ?_, ?_, ?_⟩
    · rw [hrun, FtpSessionEntry.step, hparse, hcommands]
    · rw [hrun, FtpSessionEntry.step, hparse, hrequested]
      exact h.request
    · rw [hrun, FtpSessionEntry.step, hparse, hresponded]
    · rw [hreplies, hcommands]
      intro j hj i hi
      by_cases hold : j < (replies pieces).length
      · exact h.follows j hold i hi
      · rw [List.length_append] at hj
        have hnew := hlast _ (List.mk_add_mem_zipIdx_iff_getElem?.2 (List.getElem?_eq_getElem
          (show j - (replies pieces).length < _ by omega)))
        rw [Nat.add_sub_cancel' (not_lt.1 hold)] at hnew
        rcases hnew with ⟨hnone, -⟩ | ⟨hne, hsome, -⟩
        · rw [hi] at hnone
          cases hnone
        · obtain rfl := Option.some.inj (hi.symm.trans hsome)
          have := List.length_pos_of_ne_nil hne
          omega

theorem keeps_of_allInTurn {before pieces : List ControlPiece} (h : Keeps answering before)
    (hturns : AllInTurn answering before pieces) : ∀ pre, pre <+: pieces →
      Keeps answering (before ++ pre) := by
  induction pieces generalizing before with
  | nil =>
    intro pre hpre
    rwa [List.prefix_nil.1 hpre, List.append_nil]
  | cons piece pieces ih =>
    intro pre hpre
    rcases List.prefix_cons_iff.1 hpre with rfl | ⟨rest, rfl, hrest⟩
    · rwa [List.append_nil]
    · have hkeeps := ih (h.step hturns.1) hturns.2 rest hrest
      rwa [List.append_assoc] at hkeeps

/-- In a run whose pieces all come in their turn the log is complete at every point. -/
theorem logged_of_allInTurn {pieces : List ControlPiece} (h : AllInTurn answering [] pieces) :
    ∀ pre, pre <+: pieces → Logged answering pre := by
  intro pre hpre
  have hkeeps := keeps_of_allInTurn (keeps_nil answering) h pre hpre
  rw [Logged, ← List.nil_append pre, hkeeps.session, loggedSession_log]

def afterGreeting : Answering
  | 0 => none
  | j + 1 => some j

theorem login_logged :
    Logged afterGreeting [.response (bytesOf "220 ready\r\n"), .request (bytesOf "USER a"),
      .request (bytesOf "b\r\n"), .response (bytesOf "331 pass"), .response (bytesOf "word\r\n"),
      .request (bytesOf "PASS c\r\n"), .response (bytesOf "230 in\r\n")] :=
  logged_of_allInTurn (by decide +kernel) _ (List.prefix_refl _)

/-- The second of two commands in one piece is skipped. -/
theorem second_command_not_logged :
    ¬ ∀ (answering : Answering) (pieces : List ControlPiece), Follows answering pieces →
      ∀ pre, pre <+: pieces → Logged answering pre := by
  intro h
  let piece : ControlPiece := .request (bytesOf "USER a\r\nPASS b\r\n")
  have hfollows : Follows (fun _ => none) [piece] := fun _ _ _ _ _ hsome => nomatch hsome
  have hlogged : Logged (fun _ => none) [piece] := h _ _ hfollows _ (List.prefix_refl _)
  have hlength := congrArg List.length hlogged
  exact absurd hlength (by decide +kernel)

def FtpSession.forgetDcons (s : FtpSession) : FtpSession :=
  { s with cmdList := s.cmdList.map fun cmd => { cmd with ftpDcon := none } }

@[simp] theorem forgetDcons_log (s : FtpSession) : s.forgetDcons.log = s.log := by
  simp [FtpSession.forgetDcons, FtpSession.log]

theorem mapCmd_forgetDcons (s : FtpSession) (id : ℕ) {f : FtpCmd → FtpCmd}
    (hf : ∀ cmd, { f cmd with ftpDcon := none } = f { cmd with ftpDcon := none }) :
    (s.mapCmd id f).forgetDcons = s.forgetDcons.mapCmd id f := by
  simp only [FtpSession.forgetDcons, FtpSession.mapCmd, List.map_map]
  congr 2
  funext cmd
  by_cases hid : cmd.id = id
  · simp only [Function.comp_apply, if_pos hid, hf]
  · simp only [Function.comp_apply, if_neg hid]

@[simp] theorem setFtpDcon_forgetDcons (s : FtpSession) (id : ℕ) (d : Option ℕ) :
    (s.setFtpDcon id d).forgetDcons = s.forgetDcons := by
  simp only [FtpSession.forgetDcons, FtpSession.setFtpDcon, FtpSession.mapCmd, List.map_map]
  congr 2
  funext cmd
  by_cases hid : cmd.id = id
  · simp only [Function.comp_apply, if_pos hid]
  · simp only [Function.comp_apply, if_neg hid]

theorem commandLine_forgetDcons (s : FtpSession) (line : List UInt8) :
    (s.commandLine line).forgetDcons = s.forgetDcons.commandLine line := by
  simp only [FtpSession.commandLine, FtpSession.cmdAdd]
  split
  · rfl
  · simp [FtpSession.forgetDcons]

theorem replyLine_forgetDcons (s : FtpSession) (line : List UInt8) :
    (s.replyLine line).forgetDcons = s.forgetDcons.replyLine line := by
  have hcur : s.forgetDcons.curCmd = s.curCmd := rfl
  simp only [FtpSession.replyLine, FtpSession.ansAdd, hcur]
  cases s.curCmd with
  | none => rfl
  | some id =>
    dsimp only
    split_ifs
    · rfl
    · exact mapCmd_forgetDcons s id fun _ => rfl

def loggedBy (w : Worker) (c : ℕ) : Option FtpSession :=
  (w.controls.cell c).map fun s => s.ftpSession.forgetDcons

theorem loggedBy_setControl {w w' : Worker} {c : ℕ} {s : ControlSession}
    (h : w.setControl c s = some w') :
    loggedBy w' c = some s.ftpSession.forgetDcons := by
  obtain ⟨controls, hwrite, hw'⟩ := Option.bind_eq_some_iff.1 h
  cases hw'
  cases hc : w.controls.cell c with
  | none =>
    rw [Arena.write_of_none hc] at hwrite
    cases hwrite
  | some old =>
    obtain ⟨controls', hwrite', hcell, -, -⟩ := Arena.write_eq hc s
    rw [hwrite] at hwrite'
    cases hwrite'
    rw [loggedBy, hcell, Function.update_self]
    rfl

theorem loggedBy_setFtpDcon {w w' : Worker} {c id : ℕ} {d : Option ℕ}
    (h : w.setFtpDcon c id d = some w') : loggedBy w' c = loggedBy w c := by
  obtain ⟨s, hs, hset⟩ := Option.bind_eq_some_iff.1 h
  rw [loggedBy_setControl hset, loggedBy, hs, setFtpDcon_forgetDcons]
  rfl

theorem loggedBy_finOutput {w w' : Worker} {d : ℕ} (h : dataConnectionFinOutput w d = some w')
    (c : ℕ) :
    loggedBy w' c = loggedBy w c := by
  unfold dataConnectionFinOutput at h
  split_ifs at h with htask
  · exact Option.some.inj h ▸ rfl
  obtain ⟨dcon, -, hrest⟩ := Option.bind_eq_some_iff.1 h
  split at hrest
  · obtain ⟨ts, -, hrest⟩ := Option.bind_eq_some_iff.1 hrest
    split at hrest
    · obtain ⟨tsessions, -, hrest⟩ := Option.bind_eq_some_iff.1 hrest
      obtain ⟨w₁, hfin, hrest⟩ := Option.bind_eq_some_iff.1 hrest
      obtain ⟨tsessions', -, hrest⟩ := Option.bind_eq_some_iff.1 hrest
      rw [dataConnectionFin, if_neg htask] at hfin
      obtain ⟨dcons, -, hw₁⟩ := Option.bind_eq_some_iff.1 hfin
      cases hw₁
      cases hrest
      rfl
    · cases hrest
      rfl
  · cases hrest
    rfl

theorem loggedBy_processFtpAns {w w' : Worker} {c : ℕ} {s : ControlSession} {cmd : FtpCmd}
    {ans : FtpAns}
    (h : processFtpAns w c s cmd ans = some w') : loggedBy w' c = loggedBy w c := by
  obtain rfl | ⟨id, srcIp, dstIp, dstPort, w₁, hcreate, hset⟩ | ⟨d, id, w₁, houtput, hset⟩ :=
    processFtpAns_cases h
  · rfl
  · rw [loggedBy_setFtpDcon hset]
    rw [dataConnectionCreate] at hcreate
    split_ifs at hcreate
    cases hcreate
    rfl
  · rw [loggedBy_setFtpDcon hset, loggedBy_finOutput houtput]

theorem loggedBy_requestLine {w w' : Worker} {c : ℕ} {line : List UInt8}
    (h : requestLine w c line = some w') :
    loggedBy w' c = (loggedBy w c).map (FtpSession.commandLine · line) := by
  obtain ⟨s, hs, hset⟩ := Option.bind_eq_some_iff.1 h
  rw [loggedBy_setControl hset, loggedBy, hs]
  exact congrArg some (commandLine_forgetDcons s.ftpSession line)

theorem loggedBy_responseLine {w w' : Worker} {c : ℕ} {line : List UInt8}
    (h : responseLine w c line = some w') :
    loggedBy w' c = (loggedBy w c).map (FtpSession.replyLine · line) := by
  obtain ⟨s, hs, hrest⟩ := Option.bind_eq_some_iff.1 h
  have hlogged : loggedBy w c = some s.ftpSession.forgetDcons := by
    rw [loggedBy, hs]
    rfl
  rw [hlogged, Option.map_some, ← replyLine_forgetDcons, FtpSession.replyLine]
  cases hans : s.ftpSession.ansAdd (lineStrParse line).1 (lineStrParse line).2 with
  | none =>
    simp only [hans] at hrest
    cases hrest
    exact hlogged
  | some added =>
    obtain ⟨ftpSession, id, ans⟩ := added
    simp only [hans] at hrest
    obtain ⟨w₁, hset, hrest⟩ := Option.bind_eq_some_iff.1 hrest
    rw [← loggedBy_setControl hset]
    split at hrest
    · exact Option.some.inj hrest ▸ rfl
    · exact loggedBy_processFtpAns hrest

end CloudHands.Ftp

import CloudHands.Ftp.Session
import CloudHands.Lib.Arena
import CloudHands.Pkt.Payload

/-!
# FTP data connections

`ch_ftp_data_connection_pool.c` and the FTP callbacks of one worker. The control sessions, the
data connections and the TCP sessions of the data connections have memory of their own: the
commands lie in that of the control session, the application and the entries of a data session
in that of the data connection. A function without a result has followed a reference into
memory that was given back.
-/

namespace CloudHands.Ftp

open Lib Pkt

/-- A control connection with its addresses and its `ch_ftp_session_t`. -/
structure ControlSession where
  srcIp : ℕ
  dstIp : ℕ
  ftpSession : FtpSession
  deriving DecidableEq, Repr

/-- `ch_ftp_data_session_entry_t`; with a file, `fstore_path` is set. -/
structure DataSessionEntry where
  ftpPath : List UInt8
  ftpFname : List UInt8
  hasFile : Bool
  deriving DecidableEq, Repr

/-- `ch_ftp_data_connection_t`. The entries made for it stay in its memory, and
`data_session_entry` is the last of them. -/
structure DataConnection where
  tsession : Option ℕ
  ftpSession : ℕ
  ftpCmd : ℕ
  entries : List DataSessionEntry
  srcIp : ℕ
  dstIp : ℕ
  dstPort : ℕ
  deriving DecidableEq, Repr

/-- The `ch_tcp_session_t` of a data connection: the data connection whose application it has,
and the number of its entry there. -/
structure DataTcpSession where
  app : ℕ
  sentry : Option ℕ
  deriving DecidableEq, Repr

structure Worker where
  taskId : ℕ
  controls : Arena ControlSession
  dcons : Arena DataConnection
  tsessions : Arena DataTcpSession
  dconList : List ℕ

def Worker.init (taskId : ℕ) : Worker := ⟨taskId, .empty, .empty, .empty, []⟩

/-- `MAX_THREAD_NUM`: the tasks with a list. -/
def maxThreadNum : ℕ := 256

def entryIsEqual (dcon : DataConnection) (pkt : FlowKey) : Bool :=
  (pkt.srcIp = dcon.dstIp && pkt.srcPort = dcon.dstPort && pkt.dstIp = dcon.srcIp) ||
    (pkt.dstIp = dcon.dstIp && pkt.dstPort = dcon.dstPort && pkt.srcIp = dcon.srcIp)

/-- The walk of `ch_ftp_data_connection_find` along the list: the first match, if any. -/
def findFrom (w : Worker) (pkt : FlowKey) : List ℕ → Option (Option ℕ)
  | [] => some none
  | d :: ds => do
    let dcon ← w.dcons.cell d
    if entryIsEqual dcon pkt then some (some d) else findFrom w pkt ds

/-- `ch_ftp_data_connection_find`. -/
def dataConnectionFind (w : Worker) (pkt : FlowKey) : Option (Option ℕ) :=
  if maxThreadNum ≤ w.taskId then some none else findFrom w pkt w.dconList

/-- `ch_ftp_data_connection_create`, with the command that its caller sets; the number of the
data connection is that of the arena before. The caller goes on with a null pointer too. -/
def dataConnectionCreate (w : Worker) (ftpSession ftpCmd srcIp dstIp dstPort : ℕ) : Option Worker :=
  if maxThreadNum ≤ w.taskId then none
  else
    some
      { w with
        dcons := w.dcons.alloc ⟨none, ftpSession, ftpCmd, [], srcIp, dstIp, dstPort⟩
        dconList := w.dcons.next :: w.dconList }

/-- `ch_ftp_data_connection_fin`. -/
def dataConnectionFin (w : Worker) (d : ℕ) : Option Worker :=
  if maxThreadNum ≤ w.taskId then some w
  else do
    let dcons ← w.dcons.free d
    some { w with dcons := dcons, dconList := w.dconList.erase d }

/-- `ch_ftp_data_connection_fin_output`. The last assignment is to the session that was freed. -/
def dataConnectionFinOutput (w : Worker) (d : ℕ) : Option Worker :=
  if maxThreadNum ≤ w.taskId then some w
  else do
    let dcon ← w.dcons.cell d
    match dcon.entries.getLast?, dcon.tsession with
    | some _, some t => do
      let ts ← w.tsessions.cell t
      if ts.sentry.isSome then do
        let tsessions ← w.tsessions.free t
        let w ← dataConnectionFin { w with tsessions := tsessions } d
        let tsessions ← w.tsessions.write t { ts with sentry := none }
        some { w with tsessions := tsessions }
      else some w
    | _, _ => some w

def Worker.setControl (w : Worker) (c : ℕ) (s : ControlSession) : Option Worker := do
  let controls ← w.controls.write c s
  some { w with controls := controls }

/-- The assignment `ftp_cmd->ftp_dcon`. -/
def Worker.setFtpDcon (w : Worker) (c id : ℕ) (d : Option ℕ) : Option Worker := do
  let s ← w.controls.cell c
  w.setControl c { s with ftpSession := s.ftpSession.setFtpDcon id d }

/-- `do_ftp_session_request_parse` of a line. -/
def requestLine (w : Worker) (c : ℕ) (line : List UInt8) : Option Worker := do
  let s ← w.controls.cell c
  let (cmd, args) := lineStrParse line
  w.setControl c { s with ftpSession := s.ftpSession.cmdAdd cmd args }

def processFtpDataConnection (w : Worker) (c : ℕ) (s : ControlSession) (cmd : FtpCmd) (ans : FtpAns)
    (isPasv : Bool) : Option Worker :=
  if ans.phrase = [] then some w
  else if cmd.ftpDcon.isSome then some w
  else if isPasv ∧ ans.code ≠ 227 then some w
  else if !isPasv ∧ ans.code ≠ 200 then some w
  else
    let (dstIp, dstPort) := ipPortGet ans.phrase isPasv
    if dstIp = 0 ∨ (dstIp ≠ s.srcIp ∧ dstIp ≠ s.dstIp) ∨ dstPort = 0 then some w
    else do
      let srcIp := if dstIp = s.srcIp then s.dstIp else s.srcIp
      let w' ← dataConnectionCreate w c cmd.id srcIp dstIp dstPort
      w'.setFtpDcon c cmd.id (some w.dcons.next)

def processFtpDataRwOk (w : Worker) (c : ℕ) (s : ControlSession) : Option Worker :=
  match s.ftpSession.transferCmd with
  | none => some w
  | some cmd =>
    match cmd.ftpDcon with
    | none => some w
    | some d => do
      let w ← dataConnectionFinOutput w d
      w.setFtpDcon c cmd.id none

def processFtpAns (w : Worker) (c : ℕ) (s : ControlSession) (cmd : FtpCmd) (ans : FtpAns) :
    Option Worker :=
  if isCmd cmd "PASV" then processFtpDataConnection w c s cmd ans true
  else if isCmd cmd "PORT" then processFtpDataConnection w c s cmd ans false
  else if ans.code = 226 then processFtpDataRwOk w c s
  else some w

theorem processFtpDataConnection_cases {w w' : Worker} {c : ℕ} {s : ControlSession} {cmd : FtpCmd}
    {ans : FtpAns} {isPasv : Bool} (h : processFtpDataConnection w c s cmd ans isPasv = some w') :
    w' = w ∨ ∃ srcIp dstIp dstPort w₁,
      dataConnectionCreate w c cmd.id srcIp dstIp dstPort = some w₁ ∧
      w₁.setFtpDcon c cmd.id (some w.dcons.next) = some w' := by
  simp only [processFtpDataConnection] at h
  split_ifs at h
  · exact .inl (Option.some.inj h).symm
  · exact .inl (Option.some.inj h).symm
  · exact .inl (Option.some.inj h).symm
  · exact .inl (Option.some.inj h).symm
  · exact .inl (Option.some.inj h).symm
  all_goals
    obtain ⟨w₁, hcreate, hset⟩ := Option.bind_eq_some_iff.1 h
    exact .inr ⟨_, _, _, w₁, hcreate, hset⟩

theorem processFtpAns_cases {w w' : Worker} {c : ℕ} {s : ControlSession} {cmd : FtpCmd}
    {ans : FtpAns}
    (h : processFtpAns w c s cmd ans = some w') :
    w' = w ∨
      (∃ id srcIp dstIp dstPort w₁, dataConnectionCreate w c id srcIp dstIp dstPort = some w₁ ∧
        w₁.setFtpDcon c id (some w.dcons.next) = some w') ∨
      ∃ d id w₁, dataConnectionFinOutput w d = some w₁ ∧ w₁.setFtpDcon c id none = some w' := by
  have hconnection {isPasv : Bool} (h : processFtpDataConnection w c s cmd ans isPasv = some w') :
      w' = w ∨ ∃ id srcIp dstIp dstPort w₁,
        dataConnectionCreate w c id srcIp dstIp dstPort = some w₁ ∧
        w₁.setFtpDcon c id (some w.dcons.next) = some w' :=
    (processFtpDataConnection_cases h).imp_right fun hopen => ⟨cmd.id, hopen⟩
  unfold processFtpAns at h
  split_ifs at h
  · exact (hconnection h).imp_right .inl
  · exact (hconnection h).imp_right .inl
  · unfold processFtpDataRwOk at h
    split at h
    · exact .inl (Option.some.inj h).symm
    · split at h
      · exact .inl (Option.some.inj h).symm
      · obtain ⟨w₁, houtput, hset⟩ := Option.bind_eq_some_iff.1 h
        exact .inr (.inr ⟨_, _, w₁, houtput, hset⟩)
  · exact .inl (Option.some.inj h).symm

/-- The loop body of `do_ftp_session_response_parse` for a line. -/
def responseLine (w : Worker) (c : ℕ) (line : List UInt8) : Option Worker := do
  let s ← w.controls.cell c
  let (code, phrase) := lineStrParse line
  match s.ftpSession.ansAdd code phrase with
  | none => some w
  | some (ftpSession, id, ans) => do
    let s := { s with ftpSession := ftpSession }
    let w ← w.setControl c s
    match ftpSession.getCmd id with
    | none => some w
    | some cmd => processFtpAns w c s cmd ans

/-- The end of a control connection: `do_ftp_session_entry_clean`. -/
def controlClose (w : Worker) (c : ℕ) : Option Worker := do
  let controls ← w.controls.free c
  some { w with controls := controls }

def Worker.setDcon (w : Worker) (d : ℕ) (dcon : DataConnection) : Option Worker := do
  let dcons ← w.dcons.write d dcon
  some { w with dcons := dcons }

/-- `_tcp_session_create` for the data connection `d`, with `do_ftp_data_session_entry_create`. -/
def dataSessionCreate (w : Worker) (d : ℕ) : Option Worker := do
  let dcon ← w.dcons.cell d
  let s ← w.controls.cell dcon.ftpSession
  let (ftpPath, ftpFname) := s.ftpSession.fpathNameSet
  let w ← w.setDcon d { dcon with entries := dcon.entries ++ [⟨ftpPath, ftpFname, false⟩] }
  some { w with tsessions := w.tsessions.alloc ⟨d, some dcon.entries.length⟩ }

/-- `do_ftp_data_session_entry_clean`. -/
def dataSessionEntryClean (w : Worker) (d : ℕ) (sentry : ℕ) : Option Worker := do
  let dcon ← w.dcons.cell d
  let _ ← dcon.entries[sentry]?
  let w ← w.setFtpDcon dcon.ftpSession dcon.ftpCmd none
  dataConnectionFin w d

/-- `ch_tcp_app_session_entry_clean`; the session is freed next, without its entry. -/
def tcpAppSessionEntryClean (w : Worker) (ts : DataTcpSession) : Option Worker :=
  match ts.sentry with
  | none => some w
  | some sentry => dataSessionEntryClean w ts.app sentry

/-- `_tcp_session_close`; the session table does the same when it drops a session. -/
def dataSessionClose (w : Worker) (t : ℕ) : Option Worker := do
  let ts ← w.tsessions.cell t
  let w ← tcpAppSessionEntryClean w ts
  let tsessions ← w.tsessions.free t
  some { w with tsessions := tsessions }

/-- `_do_content_process`, where `fileOk` tells whether the file can be opened. It is closed
when the application breaks. -/
def dataContent (w : Worker) (t : ℕ) (fileOk : Bool) : Option Worker := do
  let ts ← w.tsessions.cell t
  let dcon ← w.dcons.cell ts.app
  match ts.sentry with
  | none => dataSessionClose w t
  | some sentry => do
    let entry ← dcon.entries[sentry]?
    let dcon := { dcon with tsession := some (dcon.tsession.getD t) }
    if entry.hasFile then w.setDcon ts.app dcon
    else if fileOk then
      w.setDcon ts.app
        { dcon with entries := dcon.entries.set sentry { entry with hasFile := true } }
    else do
      let w ← w.setDcon ts.app dcon
      dataSessionClose w t

/-- What reaches the callbacks. Packets of a data connection come with their addresses, because
one that belongs to no registered data connection is dropped before its session is looked up. -/
inductive Event
  | open (srcIp dstIp : ℕ)
  | request (c : ℕ) (line : List UInt8)
  | response (c : ℕ) (line : List UInt8)
  | close (c : ℕ)
  | dataOpen (pkt : FlowKey)
  | data (t : ℕ) (pkt : FlowKey) (fileOk : Bool)
  | dataClose (t : ℕ) (pkt : FlowKey)
  | dataTimeout (t : ℕ)

def whenFound (w : Worker) (pkt : FlowKey) (f : ℕ → Option Worker) : Option Worker := do
  match ← dataConnectionFind w pkt with
  | none => some w
  | some d => f d

def step (w : Worker) : Event → Option Worker
  | .open srcIp dstIp =>
    some { w with controls := w.controls.alloc ⟨srcIp, dstIp, ftpSessionCreate⟩ }
  | .request c line => if (w.controls.cell c).isSome then requestLine w c line else some w
  | .response c line => if (w.controls.cell c).isSome then responseLine w c line else some w
  | .close c => if (w.controls.cell c).isSome then controlClose w c else some w
  | .dataOpen pkt => whenFound w pkt fun d => dataSessionCreate w d
  | .data t pkt fileOk =>
    if (w.tsessions.cell t).isSome then whenFound w pkt fun _ => dataContent w t fileOk else some w
  | .dataClose t pkt =>
    if (w.tsessions.cell t).isSome then whenFound w pkt fun _ => dataSessionClose w t else some w
  | .dataTimeout t => if (w.tsessions.cell t).isSome then dataSessionClose w t else some w

def runEvents (w : Worker) (evs : List Event) : Option Worker := evs.foldlM step w

end CloudHands.Ftp

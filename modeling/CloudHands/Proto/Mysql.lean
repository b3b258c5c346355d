import CloudHands.Proto.Store

/-!
# MySQL sessions

`do_mysql_session_format` and `MYSQLSession.parse`. The reader begins with the common part,
where the record has the header of the outer map, so it throws on every record. Behind the
framing it reads the codes as signed bytes, and data that is empty comes out as `NULL`.
-/

namespace CloudHands.Proto

open Lib Lib.TokenReader Msgpack Japi

structure MysqlRequest where
  opcode : UInt8
  data : List UInt8

structure MysqlResponse where
  code : UInt8
  seq : UInt8
  data : List UInt8

structure MysqlSessionData where
  req : MysqlRequest
  resList : List MysqlResponse

/-- The stored fields of `ch_mysql_session_t`, a null text being empty. The counts `entries_n`
and `res_n` go up with every element of the lists. -/
structure MysqlRecord where
  authState : UInt8
  version : List UInt8
  user : List UInt8
  entries : List MysqlSessionData

def mysqlOpnames : List String :=
  ["sleep", "quit", "use", "query", "show_column", "create_database", "drop_database", "refresh",
    "shutdown", "statistics", "process_info", "connect", "process_kill", "debug", "ping", "sleep",
    "delay_insert", "change_user", "binlog_dump", "table_dump", "connect_out", "register_slave",
    "stmt_prepare", "stmt_execute", "stmt_send_long_data", "stmt_close", "stmt_reset", "set_option",
    "stmt_fetch", "daemon", "binlog_dump_gtid", "reset_connection", "clone"]

def mysqlRequestOpnameGet (opcode : UInt8) : String := mysqlOpnames.getD opcode.toNat "unknown"

def mysqlResponseCnameGet (code : UInt8) : String :=
  if code = 0 then "ok" else if code = 255 then "error" else if code = 254 then "eof" else "result"

def dataOrNull (data : List UInt8) : List UInt8 := if data = [] then utf8Bytes "NULL" else data

def mysqlReqFormat (req : MysqlRequest) : List Token :=
  mapStart "req" 3 ++ (writeUint8 "opcode" req.opcode ++
    (writeKv "opname" (utf8Bytes (mysqlRequestOpnameGet req.opcode)) ++
    writeBinKv "data" (dataOrNull req.data)))

def mysqlResFormat (res : MysqlResponse) : List Token :=
  mapStart "res" 4 ++ (writeUint8 "code" res.code ++ (writeUint8 "seq" res.seq ++
    (writeKv "cname" (utf8Bytes (mysqlResponseCnameGet res.code)) ++
    writeBinKv "data" (dataOrNull res.data))))

def mysqlSessionDataFormat (sdata : MysqlSessionData) : List Token :=
  if 0 < count32 sdata.resList then
    mapStart "entry" 2 ++ (mysqlReqFormat sdata.req ++
      (arrayStart "ResArr" (count32 sdata.resList) ++ sdata.resList.flatMap mysqlResFormat))
  else mapStart "entry" 1 ++ mysqlReqFormat sdata.req

/-- The entries of the map under the key `mysql`. -/
def mysqlFields (r : MysqlRecord) : List Token :=
  writeUint8 "auth_state" r.authState ++ (writeKv "version" r.version ++ (writeKv "user" r.user ++
    (arrayStart "entries" (count32 r.entries) ++ r.entries.flatMap mysqlSessionDataFormat)))

def mysqlSessionFormat (r : MysqlRecord) : List Token := mapStart "mysql" 4 ++ mysqlFields r

structure MYSQLSessionRequest where
  opcode : ℕ
  opname : String
  data : List UInt8

structure MYSQLSessionResponseEntry where
  code : ℕ
  seq : ℕ
  cname : String
  data : List UInt8

structure MYSQLSessionEntry where
  request : MYSQLSessionRequest
  response : List MYSQLSessionResponseEntry

structure MYSQLSession where
  sessionEntry : TCPSessionEntry
  authState : ℕ
  version : String
  user : String
  entries : List MYSQLSessionEntry

/-- `parseBin`, which throws on a length that is no Java int. -/
def parseBin : Unpacker (List UInt8) := do
  let data ← parseRaw
  check (data.length < 2 ^ 31)
  pure data

def MYSQLSessionRequest.parse (env : Env) : Unpacker MYSQLSessionRequest := do
  parseMapOf 3
  let opcode ← parseByte
  let opname ← parseText env.replaced
  let data ← parseBin
  pure ⟨opcode, opname, data⟩

def MYSQLSessionResponseEntry.parse (env : Env) : Unpacker MYSQLSessionResponseEntry := do
  parseMapOf 4
  let code ← parseByte
  let seq ← parseByte
  let cname ← parseText env.replaced
  let data ← parseBin
  pure ⟨code, seq, cname, data⟩

/-- The constructors of `MYSQLSessionResponse`; there is none for an entry of one element. -/
def parseResponse (env : Env) (n : ℕ) : Unpacker (List MYSQLSessionResponseEntry) :=
  if n = 1 then pure [] else parseArrayTimes (MYSQLSessionResponseEntry.parse env)

def MYSQLSessionEntry.parse (env : Env) : Unpacker MYSQLSessionEntry := do
  let n ← named unpackMapHeader
  check (n = 1 ∨ n = 2)
  let request ← MYSQLSessionRequest.parse env
  let response ← parseResponse env n
  pure ⟨request, response⟩

/-- What `MYSQLSession.parse` does after the common part. -/
def parseMysql (env : Env) (entry : TCPSessionEntry) : Unpacker MYSQLSession := do
  let n ← unpackMapHeader
  check (n = 4)
  let authState ← parseByte
  let version ← parseText env.replaced
  let user ← parseText env.replaced
  let entries ← parseArrayTimes (MYSQLSessionEntry.parse env)
  pure ⟨entry, authState, version, user, entries⟩

/-- Neither the header of the outer map nor the key `mysql` is read. -/
def MYSQLSession.parse (env : Env) : Unpacker MYSQLSession := do
  let entry ← parseCommon
  parseMysql env entry

structure MYSQLSessionRequest.Same (got : MYSQLSessionRequest) (req : MysqlRequest) : Prop where
  opcode : got.opcode = req.opcode.toNat
  opname : got.opname = mysqlRequestOpnameGet req.opcode
  data : got.data = req.data

structure MYSQLSessionResponseEntry.Same (got : MYSQLSessionResponseEntry) (res : MysqlResponse) :
    Prop where
  code : got.code = res.code.toNat
  seq : got.seq = res.seq.toNat
  cname : got.cname = mysqlResponseCnameGet res.code
  data : got.data = res.data

structure MYSQLSessionEntry.Same (got : MYSQLSessionEntry) (sdata : MysqlSessionData) : Prop where
  request : got.request.Same sdata.req
  response : List.Forall₂ MYSQLSessionResponseEntry.Same got.response sdata.resList

structure MYSQLSession.SameFields (got : MYSQLSession) (r : MysqlRecord) : Prop where
  authState : got.authState = r.authState.toNat
  version : SameText got.version r.version
  user : SameText got.user r.user
  entries : List.Forall₂ MYSQLSessionEntry.Same got.entries r.entries

structure MYSQLSession.Same (got : MYSQLSession) (t : TcpSession) (r : MysqlRecord) : Prop
    extends got.SameFields r where
  sessionEntry : got.sessionEntry.Same t

theorem parseCommon_outer (ts : List Token) : parseCommon.run (mapStart "" 2 ++ ts) = none := rfl

/-- No record of a MySQL session can be read. -/
theorem mysql_records_never_agree (env : Env) (t : TcpSession) (r : MysqlRecord) :
    (MYSQLSession.parse env).run (protoSessionStore t (mysqlSessionFormat r)) = none ∧
      ¬ Agrees (MYSQLSession.parse env) (protoSessionStore t (mysqlSessionFormat r))
        (·.Same t r) := by
  have hnone :
      (MYSQLSession.parse env).run (protoSessionStore t (mysqlSessionFormat r)) = none := by
    rw [MYSQLSession.parse, StateT.run_bind, protoSessionStore, parseCommon_outer]
    rfl
  refine ⟨hnone, ?_⟩
  rintro ⟨got, hrun, -⟩
  rw [hnone] at hrun
  cases hrun

theorem mysql_record_empty_unreadable :
    (MYSQLSession.parse plainEnv).run (protoSessionStore (smallSession PROTOCOL_MYSQL)
        (mysqlSessionFormat ⟨0, utf8Bytes "5.7", utf8Bytes "root", []⟩)) = none ∧
      ¬ Agrees (MYSQLSession.parse plainEnv) (protoSessionStore (smallSession PROTOCOL_MYSQL)
        (mysqlSessionFormat ⟨0, utf8Bytes "5.7", utf8Bytes "root", []⟩))
        (·.Same (smallSession PROTOCOL_MYSQL) ⟨0, utf8Bytes "5.7", utf8Bytes "root", []⟩) := by
  refine ⟨rfl, ?_⟩
  rintro ⟨got, hrun, -⟩
  cases hrun

def DataReadable (data : List UInt8) : Prop := data ≠ [] ∧ data.length < 2 ^ 31

structure MysqlReqReadable (req : MysqlRequest) : Prop where
  opcode : req.opcode.toNat < 2 ^ 7
  data : DataReadable req.data

structure MysqlResReadable (res : MysqlResponse) : Prop where
  code : res.code.toNat < 2 ^ 7
  seq : res.seq.toNat < 2 ^ 7
  data : DataReadable res.data

structure MysqlDataReadable (sdata : MysqlSessionData) : Prop where
  req : MysqlReqReadable sdata.req
  resList : ListReadable MysqlResReadable sdata.resList

structure MysqlReadable (r : MysqlRecord) : Prop where
  authState : r.authState.toNat < 2 ^ 7
  version : TextReadable r.version
  user : TextReadable r.user
  entries : ListReadable MysqlDataReadable r.entries

theorem dataOrNull_eq_iff {data : List UInt8} : dataOrNull data = data ↔ data ≠ [] := by
  unfold dataOrNull
  split
  · rename_i hnil
    rw [hnil]
    decide
  · rename_i hne
    simpa using hne

theorem opname_short (opcode : UInt8) :
    (utf8Bytes (mysqlRequestOpnameGet opcode)).length < 2 ^ 31 := by
  have hall : ∀ s ∈ "unknown" :: mysqlOpnames, (utf8Bytes s).length < 2 ^ 31 := by decide
  refine hall _ ?_
  rw [mysqlRequestOpnameGet, List.getD_eq_getElem?_getD]
  cases hget : mysqlOpnames[opcode.toNat]? with
  | none => simp
  | some s => exact List.mem_cons_of_mem _ (List.mem_of_getElem? hget)

theorem cname_short (code : UInt8) : (utf8Bytes (mysqlResponseCnameGet code)).length < 2 ^ 31 := by
  unfold mysqlResponseCnameGet
  split
  · decide
  · split
    · decide
    · split <;> decide

theorem yields_parseBin {k : String} {data : List UInt8} (hk : k.isEmpty = false)
    (h : data.length < 2 ^ 31) : Yields parseBin (writeBinKv k data) data :=
  (yields_bin data hk).bind_pure ((yields_check h).nil_bind (yields_pure _))

section Fields

variable {env : Env} {rest rest' : List Token}

theorem bin_bind_run {β : Type} {k : String} {data : List UInt8} {f : List UInt8 → Unpacker β}
    {b : β}
    (hk : k.isEmpty = false)
    (h : (parseBin >>= f).run (writeBinKv k data ++ rest) = some (b, rest')) :
    data.length < 2 ^ 31 ∧ (f data).run rest = some (b, rest') := by
  have hlen : data.length < 2 ^ 31 := by
    obtain ⟨d, mid, hd, -⟩ := run_bind_eq_some.1 h
    rw [parseBin, (yields_bin data hk).bind_run] at hd
    obtain ⟨⟨⟩, mid', hcheck, -⟩ := run_bind_eq_some.1 hd
    exact check_run_eq_some hcheck
  rw [(yields_parseBin hk hlen).bind_run] at h
  exact ⟨hlen, h⟩

def reqOf (req : MysqlRequest) : MYSQLSessionRequest :=
  ⟨req.opcode.toNat, mysqlRequestOpnameGet req.opcode, req.data⟩

theorem yields_req {req : MysqlRequest} (h : MysqlReqReadable req) :
    Yields (MYSQLSessionRequest.parse env) (mysqlReqFormat req) (reqOf req) := by
  rw [mysqlReqFormat, dataOrNull_eq_iff.2 h.data.1]
  exact (yields_mapOf (by omega) rfl).bind <| (yields_byte h.opcode rfl).bind <|
    (yields_literal (opname_short _)).bind <|
    (yields_parseBin rfl h.data.2).bind_pure (yields_pure _)

theorem req_of_same {req : MysqlRequest} {got : MYSQLSessionRequest}
    (hrun : (MYSQLSessionRequest.parse env).run (mysqlReqFormat req ++ rest) = some (got, rest'))
    (hsame : got.Same req) : MysqlReqReadable req ∧ rest' = rest := by
  simp only [mysqlReqFormat, List.append_assoc] at hrun
  rw [MYSQLSessionRequest.parse, (yields_mapOf (by omega) rfl).bind_run] at hrun
  obtain ⟨opcode, mid, hopcode, hrun⟩ := run_bind_eq_some.1 hrun
  obtain ⟨hlt, rfl, rfl⟩ := uint_run_eq_some rfl hopcode
  obtain ⟨-, hrun⟩ := text_bind_run hrun
  obtain ⟨hlen, hrun⟩ := bin_bind_run rfl hrun
  obtain ⟨rfl, rfl⟩ := Prod.mk.inj (Option.some.inj hrun)
  have hdata : dataOrNull req.data = req.data := hsame.data
  rw [hdata] at hlen
  exact ⟨⟨hlt, dataOrNull_eq_iff.1 hdata, hlen⟩, rfl⟩

def resOf (res : MysqlResponse) : MYSQLSessionResponseEntry :=
  ⟨res.code.toNat, res.seq.toNat, mysqlResponseCnameGet res.code, res.data⟩

theorem yields_res {res : MysqlResponse} (h : MysqlResReadable res) :
    Yields (MYSQLSessionResponseEntry.parse env) (mysqlResFormat res) (resOf res) := by
  rw [mysqlResFormat, dataOrNull_eq_iff.2 h.data.1]
  exact (yields_mapOf (by omega) rfl).bind <| (yields_byte h.code rfl).bind <|
    (yields_byte h.seq rfl).bind <| (yields_literal (cname_short _)).bind <|
    (yields_parseBin rfl h.data.2).bind_pure (yields_pure _)

theorem res_of_same {res : MysqlResponse} {got : MYSQLSessionResponseEntry}
    (hrun : (MYSQLSessionResponseEntry.parse env).run (mysqlResFormat res ++ rest) =
      some (got, rest'))
    (hsame : got.Same res) : MysqlResReadable res ∧ rest' = rest := by
  simp only [mysqlResFormat, List.append_assoc] at hrun
  rw [MYSQLSessionResponseEntry.parse, (yields_mapOf (by omega) rfl).bind_run] at hrun
  obtain ⟨code, mid, hcode, hrun⟩ := run_bind_eq_some.1 hrun
  obtain ⟨hcodeLt, rfl, rfl⟩ := uint_run_eq_some rfl hcode
  obtain ⟨seq, mid, hseq, hrun⟩ := run_bind_eq_some.1 hrun
  obtain ⟨hseqLt, rfl, rfl⟩ := uint_run_eq_some rfl hseq
  obtain ⟨-, hrun⟩ := text_bind_run hrun
  obtain ⟨hlen, hrun⟩ := bin_bind_run rfl hrun
  obtain ⟨rfl, rfl⟩ := Prod.mk.inj (Option.some.inj hrun)
  have hdata : dataOrNull res.data = res.data := hsame.data
  rw [hdata] at hlen
  exact ⟨⟨hcodeLt, hseqLt, dataOrNull_eq_iff.1 hdata, hlen⟩, rfl⟩

def sessionDataOf (sdata : MysqlSessionData) : MYSQLSessionEntry :=
  ⟨reqOf sdata.req, sdata.resList.map resOf⟩

theorem sessionDataOf_same (sdata : MysqlSessionData) : (sessionDataOf sdata).Same sdata := by
  refine ⟨⟨rfl, rfl, rfl⟩, ?_⟩
  rw [sessionDataOf, List.forall₂_map_left_iff, List.forall₂_same]
  exact fun _ _ => ⟨rfl, rfl, rfl, rfl⟩

theorem yields_entryHeader {n : ℕ} (hn : n < 2 ^ 31) :
    Yields (named unpackMapHeader) (mapStart "entry" n) n :=
  yields_named (yields_below (yields_mapLen n) hn) rfl

theorem yields_sessionData {sdata : MysqlSessionData} (h : MysqlDataReadable sdata) :
    Yields (MYSQLSessionEntry.parse env) (mysqlSessionDataFormat sdata) (sessionDataOf sdata) := by
  unfold mysqlSessionDataFormat
  split
  · exact (yields_entryHeader (by omega)).bind <| (yields_check (.inr rfl)).nil_bind <|
      (yields_req h.req).bind <|
      (yields_arrayTimes rfl h.resList.1 fun res hres =>
        yields_res (h.resList.2 res hres)).bind_pure
        (yields_pure _)
  · rename_i hzero
    have hnil : sdata.resList = [] := by
      rw [count32_of_lt h.resList.1] at hzero
      exact List.eq_nil_of_length_eq_zero (by omega)
    have hentry : sessionDataOf sdata = ⟨reqOf sdata.req, []⟩ := by rw [sessionDataOf, hnil]; rfl
    rw [hentry]
    exact (yields_entryHeader (by omega)).bind <| (yields_check (.inl rfl)).nil_bind <|
      (yields_req h.req).bind_pure <| (yields_pure []).nil_bind (yields_pure _)

theorem sessionData_of_same {sdata : MysqlSessionData} {got : MYSQLSessionEntry}
    (hrun : (MYSQLSessionEntry.parse env).run (mysqlSessionDataFormat sdata ++ rest) =
      some (got, rest'))
    (hsame : got.Same sdata) : MysqlDataReadable sdata ∧ rest' = rest := by
  unfold mysqlSessionDataFormat at hrun
  split at hrun
  · simp only [List.append_assoc] at hrun
    rw [MYSQLSessionEntry.parse, (yields_entryHeader (by omega)).bind_run,
      (yields_check (.inr rfl)).nil_bind_run] at hrun
    obtain ⟨req, mid₁, hreq, hrun⟩ := run_bind_eq_some.1 hrun
    obtain ⟨res, mid₂, hres, hrun⟩ := run_bind_eq_some.1 hrun
    obtain ⟨rfl, rfl⟩ := Prod.mk.inj (Option.some.inj hrun)
    obtain ⟨hreqOk, rfl⟩ := req_of_same hreq hsame.request
    rw [parseResponse, if_neg (by decide), ← List.append_assoc] at hres
    obtain ⟨hresOk, hrest⟩ := arrayTimes_of_same rfl res_of_same hres hsame.response
    exact ⟨⟨hreqOk, hresOk⟩, hrest⟩
  · rw [List.append_assoc, MYSQLSessionEntry.parse, (yields_entryHeader (by omega)).bind_run,
      (yields_check (.inl rfl)).nil_bind_run] at hrun
    obtain ⟨req, mid₁, hreq, hrun⟩ := run_bind_eq_some.1 hrun
    obtain ⟨res, mid₂, hres, hrun⟩ := run_bind_eq_some.1 hrun
    obtain ⟨rfl, rfl⟩ := Prod.mk.inj (Option.some.inj hrun)
    obtain ⟨hreqOk, rfl⟩ := req_of_same hreq hsame.request
    obtain ⟨rfl, rfl⟩ := Prod.mk.inj (Option.some.inj hres)
    have hnil : sdata.resList = [] := List.forall₂_nil_left_iff.1 hsame.response
    exact ⟨⟨hreqOk, by simp [hnil, ListReadable]⟩, rfl⟩

end Fields

theorem mysql_fields_agree_iff {env : Env} {entry : TCPSessionEntry} {r : MysqlRecord} :
    Agrees (parseMysql env entry) (mapStart "" 4 ++ mysqlFields r) (·.SameFields r) ↔
      MysqlReadable r := by
  have hheader : Yields unpackMapHeader (mapStart "" 4) 4 :=
    yields_below (yields_mapLen 4) (by omega)
  constructor
  · rintro ⟨got, hrun, hsame⟩
    rw [parseMysql, hheader.bind_run, (yields_check rfl).nil_bind_run, mysqlFields] at hrun
    obtain ⟨authState, mid, hauth, hrun⟩ := run_bind_eq_some.1 hrun
    obtain ⟨hauthLt, rfl, rfl⟩ := uint_run_eq_some rfl hauth
    obtain ⟨hversion, hrun⟩ := text_bind_run hrun
    obtain ⟨huser, hrun⟩ := text_bind_run hrun
    obtain ⟨entries, mid, hentries, hrun⟩ := run_bind_eq_some.1 hrun
    obtain ⟨rfl, rfl⟩ := Prod.mk.inj (Option.some.inj hrun)
    rw [← List.append_nil (arrayStart _ _ ++ _)] at hentries
    obtain ⟨hlist, -⟩ := arrayTimes_of_same rfl sessionData_of_same hentries hsame.entries
    exact ⟨hauthLt, ⟨hversion, decodeText_same_iff.1 hsame.version⟩,
      ⟨huser, decodeText_same_iff.1 hsame.user⟩, hlist⟩
  · intro h
    refine ⟨⟨entry, r.authState.toNat, decodeText env.replaced r.version,
      decodeText env.replaced r.user, r.entries.map sessionDataOf⟩, ?_,
      ⟨rfl, h.version.same, h.user.same, h.entries.same fun sdata _ => sessionDataOf_same sdata⟩⟩
    exact Yields.run <| hheader.bind <| (yields_check rfl).nil_bind <|
      (yields_byte h.authState rfl).bind <| (yields_text h.version.1).bind <|
      (yields_text h.user.1).bind <|
      (yields_arrayTimes rfl h.entries.1 fun sdata hmem =>
        yields_sessionData (h.entries.2 sdata hmem)).bind_pure (yields_pure _)

end CloudHands.Proto

import CloudHands.Lib.Feed
import CloudHands.Mail.Line
import CloudHands.Proto.Mysql

/-!
# MySQL parser

`do_mysql_parse.c`. A greeting, a login and its answer are read as they come; then both
directions are read packet by packet. None stands for `PARSE_BREAK`, behind which nothing
more is read.
-/

namespace CloudHands.Mysql

open Lib Http Proto
open Mail (Side)

structure MysqlPacket where
  plen : ℕ
  seq : UInt8
  deriving DecidableEq, Repr

/-- `ch_mysql_packet_parse`, none when the header is not complete. -/
def mysqlPacketParse : List UInt8 → Option MysqlPacket
  | b₀ :: b₁ :: b₂ :: seq :: _ => some ⟨b₀.toNat + 2 ^ 8 * b₁.toNat + 2 ^ 16 * b₂.toNat, seq⟩
  | _ => none

def containsStr (target word : List UInt8) : Bool :=
  target ≠ [] && word ≠ [] && word.length ≤ target.length &&
    (List.range (target.length - word.length + 1)).any fun i => word.isPrefixOf (target.drop i)

def isMysql (data : List UInt8) : Bool :=
  10 ≤ data.length && (mysqlPacketParse data).any (·.seq = 0) && containsStr data (bytesOf "mysql")

/-- `_read_str`: the text that ends at a zero byte. -/
def readStr (data : List UInt8) (off : ℕ) : List UInt8 :=
  if 0 ∈ data.drop off then (data.drop off).takeWhile (· ≠ 0) else []

def mysqlRequestParse : List UInt8 → MysqlRequest
  | [] => ⟨0, bytesOf "NULL"⟩
  | opcode :: data => ⟨opcode, data⟩

def mysqlResponseParse (seq : UInt8) : List UInt8 → MysqlResponse
  | [] => ⟨0, seq, bytesOf "NULL"⟩
  | code :: data => ⟨code, seq, data⟩

inductive AuthPhrase
  | res
  | req
  | ack
  deriving DecidableEq, Repr

inductive AuthState
  | ok
  | err
  deriving DecidableEq, Repr

/-- `ch_mysql_session_data_t`: a command, its responses, and the number of the last packet. -/
structure SessionData extends MysqlSessionData where
  curSeq : UInt8

structure MysqlSession where
  authPhrase : AuthPhrase
  authState : AuthState
  version : List UInt8
  user : List UInt8
  entries : List SessionData

def mysqlSessionCreate (version : List UInt8) : MysqlSession := ⟨.res, .err, version, [], []⟩

/-- The session entry of a connection with the input that each direction has left over. -/
structure MysqlEntry where
  dataInputCli : List UInt8
  dataInputSrv : List UInt8
  msession : Option MysqlSession

def MysqlEntry.init : MysqlEntry := ⟨[], [], none⟩

def requestPacketContentParse (entries : List SessionData) (data : List UInt8) (seq : UInt8) :
    List SessionData :=
  entries ++ [⟨⟨mysqlRequestParse data, []⟩, seq⟩]

/-- One pass of the loop of `_do_request_packet_parse`. -/
def requestPacketStep (entries : List SessionData) (din : List UInt8) :
    Outcome (List SessionData) UInt8 :=
  match mysqlPacketParse din with
  | none => .wait
  | some pkt =>
    if din.length < pkt.plen + 4 then .wait
    else
      .take (requestPacketContentParse entries ((din.drop 4).take pkt.plen) pkt.seq)
        (din.drop (pkt.plen + 4))

/-- `find_session_data`: the place of the first entry whose number the packet follows. The sum
is that of two ints, so nothing follows 255. -/
def findSessionData (entries : List SessionData) (seq : UInt8) : Option ℕ :=
  entries.findIdx? fun sdata => sdata.curSeq.toNat + 1 = seq.toNat

def responsePacketContentParse (data : List UInt8) (seq : UInt8) (sdata : SessionData) :
    SessionData :=
  ⟨⟨sdata.req, sdata.resList ++ [mysqlResponseParse seq data]⟩, seq⟩

/-- One pass of the loop of `_do_response_packet_parse`. -/
def responsePacketStep (entries : List SessionData) (din : List UInt8) :
    Outcome (List SessionData) UInt8 :=
  match mysqlPacketParse din with
  | none => .wait
  | some pkt =>
    if pkt.seq.toNat < 1 then .stop
    else if din.length < pkt.plen + 4 then .wait
    else
      match findSessionData entries pkt.seq with
      | none => .stop
      | some i =>
        .take (entries.modify i (responsePacketContentParse ((din.drop 4).take pkt.plen) pkt.seq))
          (din.drop (pkt.plen + 4))

def requestParse (e : MysqlEntry) (data : List UInt8) : Option MysqlEntry :=
  match e.msession with
  | none => none
  | some s =>
    match s.authPhrase with
    | .res =>
      let user := if 37 < data.length then readStr data 36 else s.user
      some { e with msession := some { s with user := user, authPhrase := .req } }
    | .ack =>
      (drain requestPacketStep s.entries (readPrefare e.dataInputCli data)).map fun r =>
        { e with dataInputCli := r.2, msession := some { s with entries := r.1 } }
    | .req => none

def responseParse (e : MysqlEntry) (data : List UInt8) : Option MysqlEntry :=
  match e.msession with
  | none => some { e with msession := some (mysqlSessionCreate (readStr data 5)) }
  | some s =>
    match s.authPhrase with
    | .res => none
    | .req =>
      if data.length < 5 then none
      else if (mysqlPacketParse data).all (·.seq ≠ 2) then none
      else if data.getD 4 0 = 0 then
        some { e with msession := some { s with authPhrase := .ack, authState := .ok } }
      else none
    | .ack =>
      (drain responsePacketStep s.entries (readPrefare e.dataInputSrv data)).map fun r =>
        { e with dataInputSrv := r.2, msession := some { s with entries := r.1 } }

def dataParse (e : MysqlEntry) : Side × List UInt8 → Option MysqlEntry
  | (.client, data) => if e.msession.isNone then none else requestParse e data
  | (.server, data) => if e.msession.isNone && !isMysql data then none else responseParse e data

def run (e : MysqlEntry) (segs : List (Side × List UInt8)) : Option MysqlEntry :=
  segs.foldlM dataParse e

def packetBytes (seq : UInt8) (payload : List UInt8) : List UInt8 :=
  UInt8.ofNat payload.length :: UInt8.ofNat (payload.length / 2 ^ 8) ::
    UInt8.ofNat (payload.length / 2 ^ 16) :: seq :: payload

theorem mysqlPacketParse_packetBytes {payload : List UInt8} (h : payload.length < 2 ^ 24)
    (seq : UInt8) (more : List UInt8) :
    mysqlPacketParse (packetBytes seq payload ++ more) = some ⟨payload.length, seq⟩ := by
  simp only [packetBytes, List.cons_append, mysqlPacketParse, UInt8.toNat_ofNat']
  congr 2
  omega

theorem mysqlPacketParse_append {din : List UInt8} {pkt : MysqlPacket}
    (h : mysqlPacketParse din = some pkt) (more : List UInt8) :
    mysqlPacketParse (din ++ more) = some pkt := by
  match din, h with
  | _ :: _ :: _ :: _ :: _, h => exact h

theorem packet_append {din : List UInt8} {plen : ℕ} (h : ¬din.length < plen + 4)
    (more : List UInt8) :
    ¬(din ++ more).length < plen + 4 ∧ ((din ++ more).drop 4).take plen = (din.drop 4).take plen ∧
      (din ++ more).drop (plen + 4) = din.drop (plen + 4) ++ more := by
  have hpayload : plen ≤ (din.drop 4).length := by
    rw [List.length_drop]
    omega
  refine ⟨?_, ?_, ?_⟩
  · rw [List.length_append]
    omega
  · rw [List.drop_append_of_le_length (by omega), List.take_append_of_le_length hpayload]
  · exact List.drop_append_of_le_length (by omega)

theorem requestPacketStep_steady : Steady requestPacketStep where
  wait_nil _ := rfl
  shorter := by
    intro entries entries' din rest h
    unfold requestPacketStep at h
    split at h
    · cases h
    · split_ifs at h with hlen
      cases h
      rw [List.length_drop]
      omega
  take_append := by
    intro entries entries' din rest h more
    unfold requestPacketStep at h
    split at h
    · cases h
    · rename_i pkt hpkt
      split_ifs at h with hlen
      cases h
      obtain ⟨hall, hpayload, hrest⟩ := packet_append hlen more
      simp only [requestPacketStep, mysqlPacketParse_append hpkt, if_neg hall, hpayload, hrest]
  stop_append := by
    intro entries din h
    unfold requestPacketStep at h
    split at h
    · cases h
    · split_ifs at h

theorem responsePacketStep_steady : Steady responsePacketStep where
  wait_nil _ := rfl
  shorter := by
    intro entries entries' din rest h
    unfold responsePacketStep at h
    split at h
    · cases h
    · split_ifs at h with hseq hlen
      split at h
      · cases h
      · cases h
        rw [List.length_drop]
        omega
  take_append := by
    intro entries entries' din rest h more
    unfold responsePacketStep at h
    split at h
    · cases h
    · rename_i pkt hpkt
      split_ifs at h with hseq hlen
      split at h
      · cases h
      · rename_i i hfind
        cases h
        obtain ⟨hall, hpayload, hrest⟩ := packet_append hlen more
        simp only [responsePacketStep, mysqlPacketParse_append hpkt, if_neg hall, if_neg hseq,
          hfind,
          hpayload, hrest]
  stop_append := by
    intro entries din h more
    unfold responsePacketStep at h
    split at h
    · cases h
    · rename_i pkt hpkt
      by_cases hseq : pkt.seq.toNat < 1
      · simp only [responsePacketStep, mysqlPacketParse_append hpkt, if_pos hseq]
      · rw [if_neg hseq] at h
        split_ifs at h with hlen
        split at h
        · rename_i hfind
          have hall := (packet_append hlen more).1
          simp only [responsePacketStep, mysqlPacketParse_append hpkt, if_neg hall, if_neg hseq,
            hfind]
        · cases h

/-- The response packet as `_do_response_packet_parse` takes it, none when it breaks. -/
def respond (entries : List SessionData) (pkt : UInt8 × List UInt8) : Option (List SessionData) :=
  if pkt.1.toNat < 1 then none
  else
    (findSessionData entries pkt.1).map fun i =>
      entries.modify i (responsePacketContentParse pkt.2 pkt.1)

theorem requestPacketStep_packet {payload : List UInt8} (h : payload.length < 2 ^ 24) (seq : UInt8)
    (entries : List SessionData) (more : List UInt8) :
    requestPacketStep entries (packetBytes seq payload ++ more) =
      .take (requestPacketContentParse entries payload seq) more := by
  have hlen : ¬(packetBytes seq payload ++ more).length < payload.length + 4 := by
    simp only [packetBytes, List.cons_append, List.length_cons, List.length_append]
    omega
  simp only [requestPacketStep, mysqlPacketParse_packetBytes h, if_neg hlen]
  simp [packetBytes]

theorem responsePacketStep_packet {payload : List UInt8} (h : payload.length < 2 ^ 24) (seq : UInt8)
    (entries : List SessionData) (more : List UInt8) :
    responsePacketStep entries (packetBytes seq payload ++ more) =
      (respond entries (seq, payload)).elim .stop (.take · more) := by
  have hlen : ¬(packetBytes seq payload ++ more).length < payload.length + 4 := by
    simp only [packetBytes, List.cons_append, List.length_cons, List.length_append]
    omega
  simp only [responsePacketStep, respond, mysqlPacketParse_packetBytes h, if_neg hlen]
  split
  · rfl
  · cases findSessionData entries seq with
    | none => rfl
    | some i => simp [packetBytes]

end CloudHands.Mysql

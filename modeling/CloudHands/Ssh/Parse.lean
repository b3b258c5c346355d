import CloudHands.Lib.BigEndian
import CloudHands.Lib.Feed
import CloudHands.Lib.Word
import CloudHands.Http.Session

/-!
# SSH parser

`do_ssh_parse.c`, one direction of a connection. The times of the session entry are left out. A
connection whose parser breaks is closed, and nothing more of it is read.
-/

namespace CloudHands.Ssh

open Lib Http
open CloudHands.Word (add)

inductive SshState
  | init
  | version
  | nkey
  | enc
deriving DecidableEq, Repr

inductive SshVersion
  | unknown
  | one
  | two
deriving DecidableEq, Repr

/-- The fields of `ch_ssh_data_t` that the parser reads and writes. -/
structure SshHandshake where
  state : SshState
  version : SshVersion
  protoVersion : Option (List UInt8)
deriving DecidableEq, Repr

/-- `ch_ssh_data_t`. -/
structure SshData extends SshHandshake where
  pkts : ℕ
  bytes : ℕ
  encPkts : ℕ
  encBytes : ℕ
  encMinBytes : ℕ
  encMaxBytes : ℕ
deriving DecidableEq, Repr

def initHandshake : SshHandshake := ⟨.init, .unknown, none⟩

/-- `_init_data`. -/
def initData : SshData := ⟨initHandshake, 0, 0, 0, 0, 0, 0⟩

/-- `SSH_MSG_NEWKEYS`. -/
def msgNewkeys : UInt8 := 21

/-- The version that `_parse_ssh_version` reads in a line; `version` is the one before. -/
def lineVersion (version : SshVersion) (line : List UInt8) : SshVersion :=
  if 6 ≤ line.length then
    if strncaseEq line "SSH-1." 6 then
      if 7 < line.length ∧ line.getD 6 0 = 57 ∧ line.getD 7 0 = 57 then .two else .one
    else if strncaseEq line "SSH-2." 6 then .two
    else version
  else .unknown

/-- `_parse_ssh_version`. -/
def parseSshVersion (sshData : SshHandshake) (din : List UInt8) : Outcome SshHandshake UInt8 :=
  if din.length < 6 then .wait
  else if ¬ strncaseEq din "SSH-" 4 then .stop
  else
    match lineRead din with
    | none => .wait
    | some (raw, rest) =>
      let line := raw.take (lineLen raw)
      .take { sshData with
        version := lineVersion sshData.version line
        protoVersion := some (line.takeWhile (· ≠ 0))
        state := .version } rest

structure SshPacket where
  pktLen : ℕ
  padLen : UInt8
  msgCode : UInt8
deriving DecidableEq, Repr

/-- `_ssh_packet_parse`, of a header that is complete. -/
def sshPacketParse (din : List UInt8) : Option SshPacket :=
  if din.length < 6 then none
  else
    let pktLen := ofBigEndian (din.take 4)
    if pktLen < 2 then none else some ⟨pktLen, din.getD 4 0, din.getD 5 0⟩

/-- A turn of the loop of `_ssh_parse_record`; the state of new keys ends it. -/
def recordStep (sshData : SshHandshake) (din : List UInt8) : Outcome SshHandshake UInt8 :=
  if din.length < 6 then .wait
  else
    match sshPacketParse din with
    | none => .stop
    | some pkt =>
      let rest := din.drop 6
      if pkt.msgCode = msgNewkeys then .take { sshData with state := .nkey } rest
      else if pkt.pktLen ≤ rest.length + 2 then .take sshData (rest.drop (pkt.pktLen - 2))
      else .wait

/-- What `_do_data_parse` does in a state. -/
def parseStep (sshData : SshHandshake) (din : List UInt8) : Outcome SshHandshake UInt8 :=
  match sshData.state with
  | .init => parseSshVersion sshData din
  | .version => recordStep sshData din
  | .nkey | .enc => .wait

structure SshStream where
  sshData : SshData
  dataInput : List UInt8
  closed : Bool
deriving DecidableEq, Repr

def SshStream.init : SshStream := ⟨initData, [], false⟩

def countPacket (sshData : SshData) (dlen : ℕ) : SshData :=
  { sshData with pkts := add 64 sshData.pkts 1, bytes := add 64 sshData.bytes dlen }

def countEncrypted (sshData : SshData) (dlen : ℕ) : SshData :=
  { sshData with
    encPkts := add 64 sshData.encPkts 1
    encBytes := add 64 sshData.encBytes dlen
    encMinBytes :=
      if sshData.encMinBytes = 0 ∨ dlen < sshData.encMinBytes then dlen else sshData.encMinBytes
    encMaxBytes :=
      if sshData.encMaxBytes = 0 ∨ sshData.encMaxBytes < dlen then dlen else sshData.encMaxBytes }

/-- `_do_data_parse`. -/
def doDataParse (s : SshStream) (data : List UInt8) : SshStream :=
  let sshData := countPacket s.sshData data.length
  if sshData.state = .nkey ∨ sshData.state = .enc then
    { s with sshData := countEncrypted sshData data.length }
  else if data = [] then { s with sshData := sshData }
  else
    let r := settle parseStep sshData.toSshHandshake (readPrefare s.dataInput data)
    ⟨{ sshData with toSshHandshake := r.state }, r.left, r.gaveUp⟩

/-- The pieces of a direction, up to the one that closes the connection. -/
def sshRun (s : SshStream) (pieces : List (List UInt8)) : SshStream :=
  pieces.foldl (fun s data => if s.closed then s else doDataParse s data) s

end CloudHands.Ssh

import CloudHands.Proto.Store
import CloudHands.Ssh.Parse

/-!
# SSH sessions

`do_ssh_session_format` and `SSHSession.parse`. The writer puts a map around the two directions, and
the reader takes the map for the first of them.
-/

namespace CloudHands.Proto

open Lib Lib.TokenReader Msgpack Japi Ssh

def PROTOCOL_SSH : UInt32 := 9

def sshStateCode : SshState → UInt8
  | .init => 0
  | .version => 1
  | .nkey => 4
  | .enc => 5

def sshVersionCode : SshVersion → UInt8
  | .unknown => 0
  | .one => 1
  | .two => 2

/-- `ssh_data_format`; a null version is the empty text. -/
def sshDataFormat (sshData : SshData) (key : String) : List Token :=
  mapStart key 9 ++ (writeUint8 "state" (sshStateCode sshData.state) ++
    (writeUint8 "version" (sshVersionCode sshData.version) ++
    (writeKv "pversion" (sshData.protoVersion.getD []) ++
    (writeUint64 "pkts" (.ofNat sshData.pkts) ++ (writeUint64 "bytes" (.ofNat sshData.bytes) ++
    (writeUint64 "encPkts" (.ofNat sshData.encPkts) ++
      (writeUint64 "encBytes" (.ofNat sshData.encBytes) ++
    (writeUint64 "encMinBytes" (.ofNat sshData.encMinBytes) ++
    writeUint64 "encMaxBytes" (.ofNat sshData.encMaxBytes)))))))))

/-- `do_ssh_session_format`. -/
def sshSessionFormat (cliData srvData : SshData) : List Token :=
  mapStart "ssh" 2 ++ (sshDataFormat cliData "request" ++ sshDataFormat srvData "response")

structure SSHData where
  state : ℕ
  version : ℕ
  pversion : String
  pkts : ℕ
  bytes : ℕ
  encPkts : ℕ
  encBytes : ℕ
  encMinBytes : ℕ
  encMaxBytes : ℕ

structure SSHSession where
  sessionEntry : TCPSessionEntry
  clientData : SSHData
  serverData : SSHData

def SSHData.parse (env : Env) : Unpacker SSHData := do
  parseMapOf 9
  let state ← parseByte
  let version ← parseByte
  let pversion ← parseText env.replaced
  let pkts ← parseLong
  let bytes ← parseLong
  let encPkts ← parseLong
  let encBytes ← parseLong
  let encMinBytes ← parseLong
  let encMaxBytes ← parseLong
  pure ⟨state, version, pversion, pkts, bytes, encPkts, encBytes, encMinBytes, encMaxBytes⟩

def SSHSession.parse (env : Env) : Unpacker SSHSession := do
  let n ← unpackMapHeader
  check (n = 2)
  let entry ← parseCommon
  let clientData ← SSHData.parse env
  let serverData ← SSHData.parse env
  pure ⟨entry, clientData, serverData⟩

theorem parse_sshData_outer (env : Env) (ts : List Token) :
    (SSHData.parse env).run (mapStart "ssh" 2 ++ ts) = none := rfl

theorem sshSession_throws (env : Env) (t : TcpSession) (cliData srvData : SshData) :
    (SSHSession.parse env).run (protoSessionStore t (sshSessionFormat cliData srvData)) = none := by
  refine Option.eq_none_iff_forall_ne_some.2 fun got hrun => ?_
  have houter : Yields unpackMapHeader (mapStart "" 2) 2 :=
    yields_below (yields_mapLen 2) (by omega)
  rw [SSHSession.parse, protoSessionStore, houter.bind_run, (yields_check rfl).nil_bind_run] at hrun
  obtain ⟨entry, mid, hentry, hrun⟩ := run_bind_eq_some.1 hrun
  obtain rfl := common_rest hentry
  obtain ⟨cli, mid', hcli, -⟩ := run_bind_eq_some.1 hrun
  rw [sshSessionFormat, parse_sshData_outer] at hcli
  cases hcli

structure SSHData.Same (got : SSHData) (d : SshData) : Prop where
  state : got.state = (sshStateCode d.state).toNat
  version : got.version = (sshVersionCode d.version).toNat
  pversion : SameText got.pversion (d.protoVersion.getD [])
  pkts : got.pkts = d.pkts
  bytes : got.bytes = d.bytes
  encPkts : got.encPkts = d.encPkts
  encBytes : got.encBytes = d.encBytes
  encMinBytes : got.encMinBytes = d.encMinBytes
  encMaxBytes : got.encMaxBytes = d.encMaxBytes

structure SshCounted (d : SshData) : Prop where
  pkts : d.pkts < 2 ^ 63
  bytes : d.bytes < 2 ^ 63
  encPkts : d.encPkts < 2 ^ 63
  encBytes : d.encBytes < 2 ^ 63
  encMinBytes : d.encMinBytes < 2 ^ 63
  encMaxBytes : d.encMaxBytes < 2 ^ 63

section Direction

variable {env : Env} {d : SshData} {key : String}

theorem yields_count {v : ℕ} {k : String} (hv : v < 2 ^ 63) (hk : k.isEmpty = false) :
    Yields parseLong (writeUint64 k (.ofNat v)) v := by
  have hcount : (UInt64.ofNat v).toNat = v := UInt64.toNat_ofNat_of_lt' (by
    rw [UInt64.size]
    omega)
  rw [writeUint64, hcount]
  exact yields_long hv hk

theorem yields_sshState (s : SshState) :
    Yields parseByte (writeUint8 "state" (sshStateCode s)) (sshStateCode s).toNat :=
  yields_byte (by cases s <;> decide) rfl

theorem yields_sshVersion (v : SshVersion) :
    Yields parseByte (writeUint8 "version" (sshVersionCode v)) (sshVersionCode v).toNat :=
  yields_byte (by cases v <;> decide) rfl

theorem sshData_agrees_iff (hkey : key.isEmpty = false) (hcounted : SshCounted d) :
    Agrees (SSHData.parse env) (sshDataFormat d key) (·.Same d) ↔
      TextReadable (d.protoVersion.getD []) := by
  constructor
  · rintro ⟨got, hrun, hsame⟩
    rw [SSHData.parse, sshDataFormat, (yields_mapOf (by omega) hkey).bind_run,
      (yields_sshState d.state).bind_run, (yields_sshVersion d.version).bind_run] at hrun
    obtain ⟨htext, hrun⟩ := text_bind_run hrun
    rw [(yields_count hcounted.pkts rfl).bind_run, (yields_count hcounted.bytes rfl).bind_run,
      (yields_count hcounted.encPkts rfl).bind_run, (yields_count hcounted.encBytes rfl).bind_run,
      (yields_count hcounted.encMinBytes rfl).bind_run,
      ← List.append_nil (writeUint64 "encMaxBytes" _),
      (yields_count hcounted.encMaxBytes rfl).bind_run] at hrun
    obtain ⟨rfl, -⟩ := Prod.mk.inj (Option.some.inj hrun)
    exact ⟨htext, decodeText_same_iff.1 hsame.pversion⟩
  · intro h
    refine ⟨⟨_, _, decodeText env.replaced (d.protoVersion.getD []), d.pkts, d.bytes, d.encPkts,
      d.encBytes,
      d.encMinBytes, d.encMaxBytes⟩, ?_, ⟨rfl, rfl, h.same, rfl, rfl, rfl, rfl, rfl, rfl⟩⟩
    exact Yields.run <| (yields_mapOf (by omega) hkey).bind <| (yields_sshState d.state).bind <|
      (yields_sshVersion d.version).bind <| (yields_text h.1).bind <|
      (yields_count hcounted.pkts rfl).bind <| (yields_count hcounted.bytes rfl).bind <|
      (yields_count hcounted.encPkts rfl).bind <| (yields_count hcounted.encBytes rfl).bind <|
      (yields_count hcounted.encMinBytes rfl).bind <|
      (yields_count hcounted.encMaxBytes rfl).bind_pure (yields_pure _)

end Direction

section Run

variable {n total : ℕ} {d : SshData} {s : SshStream} {pieces : List (List UInt8)}

structure SshWithin (n total : ℕ) (d : SshData) : Prop where
  pkts : d.pkts ≤ n
  bytes : d.bytes ≤ total
  encPkts : d.encPkts ≤ n
  encBytes : d.encBytes ≤ total
  encMinBytes : d.encMinBytes ≤ total
  encMaxBytes : d.encMaxBytes ≤ total

theorem SshWithin.mono (h : SshWithin n total d) {n' total' : ℕ} (hn : n ≤ n')
    (htotal : total ≤ total') :
    SshWithin n' total' d where
  pkts := h.pkts.trans hn
  bytes := h.bytes.trans htotal
  encPkts := h.encPkts.trans hn
  encBytes := h.encBytes.trans htotal
  encMinBytes := h.encMinBytes.trans htotal
  encMaxBytes := h.encMaxBytes.trans htotal

theorem add_le {a b : ℕ} : Word.add 64 a b ≤ a + b := Nat.mod_le _ _

theorem SshWithin.countPacket (h : SshWithin n total d) (dlen : ℕ) :
    SshWithin (n + 1) (total + dlen) (Ssh.countPacket d dlen) where
  pkts := add_le.trans (Nat.add_le_add_right h.pkts 1)
  bytes := add_le.trans (Nat.add_le_add_right h.bytes dlen)
  encPkts := h.encPkts.trans (Nat.le_succ n)
  encBytes := h.encBytes.trans (Nat.le_add_right total dlen)
  encMinBytes := h.encMinBytes.trans (Nat.le_add_right total dlen)
  encMaxBytes := h.encMaxBytes.trans (Nat.le_add_right total dlen)

theorem SshWithin.countEncrypted (h : SshWithin n total d) (dlen : ℕ) :
    SshWithin (n + 1) (total + dlen) (Ssh.countEncrypted (Ssh.countPacket d dlen) dlen) := by
  have hcount := h.countPacket dlen
  refine ⟨hcount.pkts, hcount.bytes, add_le.trans (Nat.add_le_add_right h.encPkts 1),
    add_le.trans (Nat.add_le_add_right h.encBytes dlen), ?_, ?_⟩
  · simp only [Ssh.countEncrypted]
    split
    · exact Nat.le_add_left dlen total
    · exact hcount.encMinBytes
  · simp only [Ssh.countEncrypted]
    split
    · exact Nat.le_add_left dlen total
    · exact hcount.encMaxBytes

theorem SshWithin.handshake (h : SshWithin n total d) (hs : SshHandshake) :
    SshWithin n total { d with toSshHandshake := hs } := ⟨h.1, h.2, h.3, h.4, h.5, h.6⟩

theorem SshWithin.doDataParse (h : SshWithin n total s.sshData) (data : List UInt8) :
    SshWithin (n + 1) (total + data.length) (Ssh.doDataParse s data).sshData := by
  simp only [Ssh.doDataParse]
  split
  · exact h.countEncrypted data.length
  · split
    · exact h.countPacket data.length
    · exact (h.countPacket data.length).handshake _

theorem SshWithin.sshRun (h : SshWithin n total s.sshData) (pieces : List (List UInt8)) :
    SshWithin (n + pieces.length) (total + pieces.flatten.length)
      (Ssh.sshRun s pieces).sshData := by
  induction pieces generalizing n total s with
  | nil => exact h
  | cons data pieces ih =>
    rw [List.length_cons, List.flatten_cons, List.length_append, Nat.add_comm pieces.length,
      ← Nat.add_assoc n, ← Nat.add_assoc total, Ssh.sshRun, List.foldl_cons]
    by_cases hclosed : s.closed = true
    · rw [if_pos hclosed]
      exact ih (h.mono (Nat.le_succ n) (Nat.le_add_right total data.length))
    · rw [if_neg hclosed]
      exact ih (h.doDataParse data)

theorem sshWithin_init : SshWithin 0 0 SshStream.init.sshData :=
  ⟨Nat.le_refl 0, Nat.le_refl 0, Nat.le_refl 0, Nat.le_refl 0, Nat.le_refl 0, Nat.le_refl 0⟩

/-- The pieces of a direction are fewer than Java counts, and so are their bytes. -/
def Countable (pieces : List (List UInt8)) : Prop :=
  pieces.length < 2 ^ 63 ∧ pieces.flatten.length < 2 ^ 63

theorem sshCounted_run (h : Countable pieces) : SshCounted (Ssh.sshRun .init pieces).sshData := by
  have hwithin := sshWithin_init.sshRun pieces
  rw [Nat.zero_add, Nat.zero_add] at hwithin
  obtain ⟨hn, htotal⟩ := h
  exact ⟨hwithin.pkts.trans_lt hn, hwithin.bytes.trans_lt htotal, hwithin.encPkts.trans_lt hn,
    hwithin.encBytes.trans_lt htotal, hwithin.encMinBytes.trans_lt htotal,
    hwithin.encMaxBytes.trans_lt htotal⟩

/-- What is stored of a connection is never read, though each direction on its own would come out
right exactly if its version is a text that Java can hold. -/
theorem ssh_records_unread (env : Env) (t : TcpSession) {cliPieces srvPieces : List (List UInt8)}
    (hcli : Countable cliPieces) (hsrv : Countable srvPieces) :
    (SSHSession.parse env).run (protoSessionStore t (sshSessionFormat
      (Ssh.sshRun .init cliPieces).sshData (Ssh.sshRun .init srvPieces).sshData)) = none ∧
    ∀ pieces ∈ [cliPieces, srvPieces], ∀ key ∈ ["request", "response"],
      (Agrees (SSHData.parse env) (sshDataFormat (Ssh.sshRun .init pieces).sshData key)
        (·.Same (Ssh.sshRun .init pieces).sshData) ↔
          TextReadable ((Ssh.sshRun .init pieces).sshData.protoVersion.getD [])) := by
  refine ⟨sshSession_throws env t _ _, fun pieces hpieces key hkey => ?_⟩
  have hcountable : Countable pieces := by
    simp only [List.mem_cons, List.not_mem_nil, or_false] at hpieces
    rcases hpieces with rfl | rfl
    · exact hcli
    · exact hsrv
  have hne : key.isEmpty = false := by
    simp only [List.mem_cons, List.not_mem_nil, or_false] at hkey
    rcases hkey with rfl | rfl
    · rfl
    · rfl
  exact sshData_agrees_iff hne (sshCounted_run hcountable)

theorem shortVersions_unread :
    (SSHSession.parse plainEnv).run (protoSessionStore (smallSession PROTOCOL_SSH) (sshSessionFormat
      (Ssh.sshRun .init [Http.bytesOf "SSH-2.0-a\n"]).sshData
      (Ssh.sshRun .init [Http.bytesOf "SSH-2.0-b\n"]).sshData)) = none :=
  (ssh_records_unread plainEnv (smallSession PROTOCOL_SSH) ⟨by decide, by decide⟩
    ⟨by decide, by decide⟩).1

end Run

end CloudHands.Proto

import CloudHands.Lib.BigEndian
import CloudHands.Udp.App

/-!
# Files restored from TFTP transfers

A transfer sends a file in blocks of 512 bytes, the last one shorter, under numbers that
wrap. A capture is a sequence of its packets in which any may be sent again. The session
restores the file as long as no block comes twice and every acknowledgement names the last
block.
-/

namespace CloudHands.Udp

open CloudHands.Lib
open CloudHands.Pkt

/-- The bytes that `ch_tftp_session_file_write` appends in `do_tftp_packet_parse`. -/
def tftpFileWrite (s : TftpSession) (pkt : PacketUdp) (env : TftpEnv) : List UInt8 :=
  match pkt.pdata with
  | none => []
  | some p =>
    let block := readUint16 (p.drop 2)
    if pkt.payloadLen < 4 then []
    else if readUint16 p = 3 then
      if s.lastBlock + 1 < block then []
      else if (tftpFileContentProcess { s with lastBlock := block } env).1 then
        (p.drop 4).take (pkt.payloadLen - 4)
      else []
    else []

structure TftpRun where
  session : TftpSession
  file : List UInt8
  rc : ProcessRc

def TftpRun.step (r : TftpRun) (pkt : PacketUdp) (env : TftpEnv) : TftpRun :=
  if r.rc = .continue then
    let (rc, session) := tftpPacketParse r.session pkt env
    ⟨session, r.file ++ tftpFileWrite r.session pkt env, rc⟩
  else r

def DATA_SIZE : ℕ := 512

structure TftpTransfer where
  content : List UInt8
  req : PacketUdp
  env : TftpEnv
  session : TftpSession
  created : tftpAppSessionCreate req env = some session

inductive TftpPacket
  | data (k : ℕ)
  | ack (k : ℕ)
deriving DecidableEq

namespace TftpTransfer

variable (t : TftpTransfer)

def blocks : ℕ := t.content.length / DATA_SIZE + 1

def blockData (k : ℕ) : List UInt8 := (t.content.drop (DATA_SIZE * (k - 1))).take DATA_SIZE

def wire : TftpPacket → List UInt8
  | .data k => bigEndian 2 3 ++ bigEndian 2 k ++ t.blockData k
  | .ack k => bigEndian 2 4 ++ bigEndian 2 k

structure Observed where
  packet : TftpPacket
  pkt : PacketUdp
  env : TftpEnv
  trailer : List UInt8
  pdata : pkt.pdata = some (t.wire packet ++ trailer)
  payloadLen : pkt.payloadLen = (t.wire packet).length

def sent : List TftpPacket → ℕ
  | [] => 0
  | .data k :: packets => max k (sent packets)
  | .ack _ :: packets => sent packets

/-- The packets of the transfer in an order in which they can be sent: the next block when the
one before it is acknowledged, and whatever has been sent, again. -/
inductive Sent : List TftpPacket → Prop
  | nil : Sent []
  | block {packets : List TftpPacket} (before : Sent packets) (hmore : sent packets < t.blocks)
      (hacked : sent packets = 0 ∨ .ack (sent packets) ∈ packets) :
      Sent (packets ++ [.data (sent packets + 1)])
  | dataAgain {packets : List TftpPacket} {k : ℕ} (before : Sent packets) (hk : 0 < k)
      (hsent : k ≤ sent packets) : Sent (packets ++ [.data k])
  | ack {packets : List TftpPacket} {k : ℕ} (before : Sent packets) (hk : k ≤ sent packets) :
      Sent (packets ++ [.ack k])

def run (os : List t.Observed) : TftpRun :=
  os.foldl (fun r o => r.step o.pkt o.env) ⟨t.session, [], .continue⟩

def packets (os : List t.Observed) : List TftpPacket := os.map Observed.packet

/-- The session is not in error, its file is what the blocks sent so far hold, each once, and
it is done exactly when the last block has been sent. -/
structure Restored (os : List t.Observed) : Prop where
  noError : (t.run os).rc ≠ .err
  file : (t.run os).file = t.content.take (DATA_SIZE * sent (t.packets os))
  done : (t.run os).rc = .done ↔ sent (t.packets os) = t.blocks

/-- Before the end of the transfer a packet has the next block, and the file can be opened for
the first; or it acknowledges block zero or the last block, by their numbers on the wire. -/
def Fits (os : List t.Observed) (o : t.Observed) : Prop :=
  sent (t.packets os) = t.blocks ∨
    match o.packet with
    | .data k => k = sent (t.packets os) + 1 ∧ (sent (t.packets os) = 0 → o.env.file = true)
    | .ack k => k % 2 ^ 16 = 0 ∨ k % 2 ^ 16 = sent (t.packets os) % 2 ^ 16

variable {t} {os : List t.Observed} {o : t.Observed} {k : ℕ}

theorem readUint16_bigEndian (v : ℕ) (rest : List UInt8) :
    readUint16 (bigEndian 2 v ++ rest) = v % 2 ^ 16 := by
  have hvalue := ofBigEndian_bigEndian 2 v
  simp only [bigEndian, ofBigEndian, List.length_cons, List.length_nil] at hvalue
  simp only [bigEndian, readUint16, List.cons_append, List.nil_append, List.getD_cons_zero,
    List.getD_cons_succ]
  omega

theorem drop_header (head block : ℕ) (rest : List UInt8) :
    (bigEndian 2 head ++ bigEndian 2 block ++ rest).drop 2 = bigEndian 2 block ++ rest ∧
      (bigEndian 2 head ++ bigEndian 2 block ++ rest).drop 4 = rest := by
  simp [bigEndian]

theorem parse_data (ho : o.packet = .data k) (s : TftpSession) :
    tftpPacketParse s o.pkt o.env =
      tftpDataProcess s (k % 2 ^ 16) (4 + (t.blockData k).length) o.env ∧
      tftpFileWrite s o.pkt o.env =
        if s.lastBlock + 1 < k % 2 ^ 16 then []
        else if (tftpFileContentProcess { s with lastBlock := k % 2 ^ 16 } o.env).1 then
          t.blockData k
        else [] := by
  have hpdata := o.pdata
  have hlen := o.payloadLen
  rw [ho, wire] at hpdata hlen
  rw [List.append_assoc] at hpdata
  simp only [List.length_append, length_bigEndian] at hlen
  have hopcode := readUint16_bigEndian 3 (bigEndian 2 k ++ (t.blockData k ++ o.trailer))
  have hblock := readUint16_bigEndian k (t.blockData k ++ o.trailer)
  obtain ⟨hdrop₂, hdrop₄⟩ := drop_header 3 k (t.blockData k ++ o.trailer)
  rw [← List.append_assoc] at hopcode
  have hlong : ¬ o.pkt.payloadLen < 4 := by omega
  have hleft : o.pkt.payloadLen - 4 = (t.blockData k).length := by omega
  constructor
  · rw [tftpPacketParse, hpdata]
    simp only [hopcode, hdrop₂, hblock, if_neg hlong]
    rw [hlen]
    rfl
  · rw [tftpFileWrite, hpdata]
    simp only [hopcode, hdrop₂, hdrop₄, hblock, if_neg hlong, hleft, List.take_left]
    rfl

theorem parse_ack (ho : o.packet = .ack k) (s : TftpSession) :
    tftpPacketParse s o.pkt o.env =
        (if k % 2 ^ 16 ≠ 0 ∧ k % 2 ^ 16 ≠ s.lastBlock then .err else .continue, s) ∧
      tftpFileWrite s o.pkt o.env = [] := by
  have hpdata := o.pdata
  have hlen := o.payloadLen
  rw [ho, wire] at hpdata hlen
  simp only [List.length_append, length_bigEndian] at hlen
  have hopcode := readUint16_bigEndian 4 (bigEndian 2 k ++ o.trailer)
  have hblock := readUint16_bigEndian k o.trailer
  obtain ⟨hdrop, -⟩ := drop_header 4 k o.trailer
  rw [← List.append_assoc] at hopcode
  have hlong : ¬ o.pkt.payloadLen < 4 := by omega
  constructor
  · rw [tftpPacketParse, hpdata]
    simp only [hopcode, hdrop, hblock, if_neg hlong]
    rfl
  · rw [tftpFileWrite, hpdata]
    simp only [hopcode, if_neg hlong]
    rfl

theorem sent_concat_data (packets : List TftpPacket) (k : ℕ) :
    sent (packets ++ [.data k]) = max (sent packets) k := by
  induction packets with
  | nil => simp [sent]
  | cons p packets ih =>
    cases p with
    | data j => simp only [List.cons_append, sent, ih, max_assoc]
    | ack j => simpa only [List.cons_append, sent] using ih

theorem sent_concat_ack (packets : List TftpPacket) (k : ℕ) :
    sent (packets ++ [.ack k]) = sent packets := by
  induction packets with
  | nil => rfl
  | cons p packets ih =>
    cases p with
    | data j => simp only [List.cons_append, sent, ih]
    | ack j => simpa only [List.cons_append, sent] using ih

theorem Sent.le_blocks {packets : List TftpPacket} (h : t.Sent packets) :
    sent packets ≤ t.blocks := by
  induction h with
  | nil => exact Nat.zero_le _
  | block before hmore hacked ih =>
    rw [sent_concat_data]
    omega
  | dataAgain before hk hsent ih =>
    rw [sent_concat_data]
    omega
  | ack before hk ih =>
    rw [sent_concat_ack]
    exact ih

theorem length_blockData_lt_iff (hpos : 0 < k) (hk : k ≤ t.blocks) :
    (t.blockData k).length < DATA_SIZE ↔ k = t.blocks := by
  rw [blockData, List.length_take, List.length_drop, blocks] at *
  have hdiv := Nat.div_add_mod t.content.length DATA_SIZE
  have hmod : t.content.length % DATA_SIZE < DATA_SIZE := Nat.mod_lt _ (by decide)
  obtain ⟨j, rfl⟩ : ∃ j, k = j + 1 := ⟨k - 1, by omega⟩
  rw [DATA_SIZE] at *
  simp only [Nat.add_sub_cancel]
  omega

theorem take_blockData (d : ℕ) :
    t.content.take (DATA_SIZE * d) ++ t.blockData (d + 1) =
      t.content.take (DATA_SIZE * (d + 1)) := by
  rw [blockData, Nat.add_sub_cancel, Nat.mul_succ, List.take_add]

@[simp] theorem packets_concat (os : List t.Observed) (o : t.Observed) :
    t.packets (os ++ [o]) = t.packets os ++ [o.packet] := by
  simp [packets]

@[simp] theorem run_concat (os : List t.Observed) (o : t.Observed) :
    t.run (os ++ [o]) = (t.run os).step o.pkt o.env := by
  simp [run]

theorem Sent.of_concat_data {packets : List TftpPacket} (h : t.Sent (packets ++ [.data k])) :
    t.Sent packets ∧ 0 < k ∧
      (k ≤ sent packets ∨ k = sent packets + 1 ∧ sent packets < t.blocks) := by
  generalize heq : packets ++ [.data k] = all at h
  cases h with
  | nil => simp at heq
  | block before hmore hacked =>
    obtain ⟨rfl, hlast⟩ := List.append_inj' heq rfl
    simp only [List.cons.injEq, TftpPacket.data.injEq, and_true] at hlast
    exact ⟨before, by omega, .inr ⟨hlast, hmore⟩⟩
  | dataAgain before hk hsent =>
    obtain ⟨rfl, hlast⟩ := List.append_inj' heq rfl
    simp only [List.cons.injEq, TftpPacket.data.injEq, and_true] at hlast
    obtain rfl := hlast
    exact ⟨before, hk, .inl hsent⟩
  | ack before hk =>
    obtain ⟨-, hlast⟩ := List.append_inj' heq rfl
    simp at hlast

theorem Sent.of_concat_ack {packets : List TftpPacket} (h : t.Sent (packets ++ [.ack k])) :
    t.Sent packets ∧ k ≤ sent packets := by
  generalize heq : packets ++ [.ack k] = all at h
  cases h with
  | nil => simp at heq
  | block before hmore hacked =>
    obtain ⟨-, hlast⟩ := List.append_inj' heq rfl
    simp at hlast
  | dataAgain before hk hsent =>
    obtain ⟨-, hlast⟩ := List.append_inj' heq rfl
    simp at hlast
  | ack before hk =>
    obtain ⟨rfl, hlast⟩ := List.append_inj' heq rfl
    simp only [List.cons.injEq, TftpPacket.ack.injEq, and_true] at hlast
    obtain rfl := hlast
    exact ⟨before, hk⟩

theorem Sent.of_concat {packets : List TftpPacket} {p : TftpPacket} (h : t.Sent (packets ++ [p])) :
    t.Sent packets := by
  cases p with
  | data k => exact h.of_concat_data.1
  | ack k => exact h.of_concat_ack.1

theorem Sent.of_prefix {pre : List t.Observed} (h : t.Sent (t.packets os)) (hpre : pre <+: os) :
    t.Sent (t.packets pre) := by
  induction os using List.reverseRecOn with
  | nil => rwa [List.prefix_nil.1 hpre]
  | append_singleton os o ih =>
    rcases List.prefix_concat_iff.1 hpre with rfl | hpre
    · exact h
    · rw [packets_concat] at h
      exact ih h.of_concat hpre

structure Waiting (os : List t.Observed) : Prop where
  restored : t.Restored os
  lastBlock : (t.run os).rc = .continue →
    (t.run os).session.lastBlock = sent (t.packets os) % 2 ^ 16
  fp : (t.run os).rc = .continue → (t.run os).session.fp = decide (0 < sent (t.packets os))

theorem waiting_nil (t : TftpTransfer) : t.Waiting [] := by
  have hsession : t.session.lastBlock = 0 ∧ t.session.fp = false := by
    have hcreated := t.created
    rw [tftpAppSessionCreate, tftpSessionCreate] at hcreated
    cases hp : t.req.pdata with
    | none => simp [hp] at hcreated
    | some p =>
      simp only [hp] at hcreated
      split_ifs at hcreated
      rw [← Option.some.inj hcreated]
      exact ⟨rfl, rfl⟩
  refine ⟨⟨nofun, by simp [run, packets, sent], ?_⟩, fun _ => hsession.1, fun _ => hsession.2⟩
  simp [run, packets, sent, blocks]

theorem Waiting.after_end (h : t.Waiting os) (hend : sent (t.packets os) = t.blocks)
    (hsent : t.Sent (t.packets os ++ [o.packet])) : t.Waiting (os ++ [o]) := by
  have hdone := h.restored.done.2 hend
  have hrun : t.run (os ++ [o]) = t.run os := by
    rw [run_concat, TftpRun.step, if_neg (by rw [hdone]; exact nofun)]
  have hsame : sent (t.packets (os ++ [o])) = sent (t.packets os) := by
    have hle := hsent.le_blocks
    rw [packets_concat]
    cases hp : o.packet with
    | data k =>
      rw [hp] at hle
      rw [sent_concat_data] at hle ⊢
      omega
    | ack k => exact sent_concat_ack _ _
  refine ⟨⟨?_, ?_, ?_⟩, ?_, ?_⟩ <;> rw [hrun]
  · exact h.restored.noError
  · rw [hsame]
    exact h.restored.file
  · rw [hsame]
    exact h.restored.done
  · rw [hdone]
    exact nofun
  · rw [hdone]
    exact nofun

theorem Waiting.continue (h : t.Waiting os) (hmore : sent (t.packets os) ≠ t.blocks) :
    (t.run os).rc = .continue := by
  have herr := h.restored.noError
  have hdone := mt h.restored.done.1 hmore
  cases hrc : (t.run os).rc with
  | «continue» => rfl
  | done => exact absurd hrc hdone
  | err => exact absurd hrc herr

theorem run_concat_of_continue (hrc : (t.run os).rc = .continue) :
    t.run (os ++ [o]) =
      ⟨(tftpPacketParse (t.run os).session o.pkt o.env).2,
        (t.run os).file ++ tftpFileWrite (t.run os).session o.pkt o.env,
        (tftpPacketParse (t.run os).session o.pkt o.env).1⟩ := by
  rw [run_concat, TftpRun.step, if_pos hrc]

theorem Waiting.ack (h : t.Waiting os) (ho : o.packet = .ack k)
    (hmore : sent (t.packets os) ≠ t.blocks)
    (hk : k % 2 ^ 16 = 0 ∨ k % 2 ^ 16 = sent (t.packets os) % 2 ^ 16) : t.Waiting (os ++ [o]) := by
  have hrc := h.continue hmore
  obtain ⟨hparse, hwrite⟩ := parse_ack ho (t.run os).session
  rw [h.lastBlock hrc, if_neg (by tauto)] at hparse
  have hrun := run_concat_of_continue (o := o) hrc
  rw [hparse, hwrite, List.append_nil] at hrun
  have hsame : sent (t.packets (os ++ [o])) = sent (t.packets os) := by
    rw [packets_concat, ho, sent_concat_ack]
  refine ⟨⟨?_, ?_, ?_⟩, ?_, ?_⟩ <;> rw [hrun]
  · exact nofun
  · rw [hsame]
    exact h.restored.file
  · rw [hsame]
    exact ⟨nofun, fun hend => absurd hend hmore⟩
  · rw [hsame]
    exact fun _ => h.lastBlock hrc
  · rw [hsame]
    exact fun _ => h.fp hrc

theorem Waiting.data (h : t.Waiting os) (ho : o.packet = .data (sent (t.packets os) + 1))
    (hmore : sent (t.packets os) < t.blocks) (hfile : sent (t.packets os) = 0 → o.env.file = true) :
    t.Waiting (os ++ [o]) := by
  have hrc := h.continue hmore.ne
  have hlast := h.lastBlock hrc
  have hfp := h.fp hrc
  obtain ⟨hparse, hwrite⟩ := parse_data ho (t.run os).session
  have hnext : ¬ (t.run os).session.lastBlock + 1 < (sent (t.packets os) + 1) % 2 ^ 16 := by
    rw [hlast]
    omega
  -- the file is open, or this is the first block and it can be opened
  have hopen : tftpFileContentProcess
      { (t.run os).session with lastBlock := (sent (t.packets os) + 1) % 2 ^ 16 } o.env =
      (true, { (t.run os).session with
        lastBlock := (sent (t.packets os) + 1) % 2 ^ 16, fp := true }) := by
    rw [tftpFileContentProcess]
    by_cases hzero : sent (t.packets os) = 0
    · rw [if_neg (by simp [hfp, hzero]), if_pos (hfile hzero)]
    · have hpos : (t.run os).session.fp = true := by
        rw [hfp]
        simpa using Nat.pos_of_ne_zero hzero
      simp [hpos]
  rw [if_neg hnext, hopen, if_pos rfl] at hwrite
  rw [tftpDataProcess, if_neg hnext, hopen] at hparse
  dsimp only at hparse
  have hrun := run_concat_of_continue (o := o) hrc
  rw [hparse, hwrite] at hrun
  have hcount : sent (t.packets (os ++ [o])) = sent (t.packets os) + 1 := by
    rw [packets_concat, ho, sent_concat_data]
    omega
  have hshort : 4 + (t.blockData (sent (t.packets os) + 1)).length - 4 < 512 ↔
      sent (t.packets os) + 1 = t.blocks := by
    rw [Nat.add_sub_cancel_left]
    exact length_blockData_lt_iff (Nat.succ_pos _) hmore
  refine ⟨⟨?_, ?_, ?_⟩, ?_, ?_⟩ <;> rw [hrun]
  · dsimp only
    split <;> exact nofun
  · rw [hcount, h.restored.file, take_blockData]
  · rw [hcount, ← hshort]
    dsimp only
    split
    next hlt => exact iff_of_true rfl hlt
    next hge => exact iff_of_false nofun hge
  · rw [hcount]
    exact fun _ => rfl
  · rw [hcount]
    intro _
    simp

theorem Waiting.step (h : t.Waiting os) (hsent : t.Sent (t.packets os ++ [o.packet]))
    (hfits : t.Fits os o) : t.Waiting (os ++ [o]) := by
  by_cases hend : sent (t.packets os) = t.blocks
  · exact h.after_end hend hsent
  have hpacket := hfits.resolve_left hend
  cases ho : o.packet with
  | data k =>
    rw [ho] at hpacket hsent
    obtain ⟨rfl, hfile⟩ := hpacket
    exact h.data ho (lt_of_le_of_ne hsent.of_concat.le_blocks hend) hfile
  | ack k =>
    rw [ho] at hpacket
    exact h.ack ho hend hpacket

theorem Waiting.fits (h : t.Waiting os) (hsent : t.Sent (t.packets os ++ [o.packet]))
    (hrestored : t.Restored (os ++ [o])) : t.Fits os o := by
  by_cases hend : sent (t.packets os) = t.blocks
  · exact .inl hend
  right
  have hrc := h.continue hend
  have hlast := h.lastBlock hrc
  have hfp := h.fp hrc
  have hrun := run_concat_of_continue (o := o) hrc
  have hnoError := hrestored.noError
  have hfile := hrestored.file
  rw [hrun] at hnoError hfile
  cases ho : o.packet with
  | ack k =>
    obtain ⟨hparse, -⟩ := parse_ack ho (t.run os).session
    rw [hparse, hlast] at hnoError
    by_contra hne
    rw [not_or] at hne
    exact hnoError (if_pos hne)
  | data k =>
    rw [ho] at hsent
    obtain ⟨hbefore, hpos, hcount⟩ := hsent.of_concat_data
    obtain ⟨hparse, hwrite⟩ := parse_data ho (t.run os).session
    rw [hparse, tftpDataProcess] at hnoError
    have hnext : ¬ (t.run os).session.lastBlock + 1 < k % 2 ^ 16 := by
      intro hover
      rw [if_pos hover] at hnoError
      exact hnoError rfl
    rw [if_neg hnext] at hnoError hwrite
    have hopen :
        (tftpFileContentProcess { (t.run os).session with lastBlock := k % 2 ^ 16 } o.env).1
        = true := by
      rcases hprocess :
        tftpFileContentProcess { (t.run os).session with lastBlock := k % 2 ^ 16 } o.env with
        ⟨opened, session⟩
      cases opened with
      | true => rfl
      | false =>
        rw [hprocess] at hnoError
        exact absurd rfl hnoError
    rw [if_pos hopen] at hwrite
    rcases hcount with hagain | ⟨rfl, -⟩
    · -- a block that comes again is written again, and it is a full one
      exfalso
      rw [hwrite, h.restored.file, packets_concat, ho, sent_concat_data,
        Nat.max_eq_left hagain] at hfile
      have hnil := congrArg List.length hfile
      rw [List.length_append] at hnil
      have hle := hbefore.le_blocks
      have hfull := (length_blockData_lt_iff hpos (hagain.trans hle)).not
      have hdata : DATA_SIZE = 512 := rfl
      omega
    · refine ⟨rfl, fun hzero => ?_⟩
      rw [tftpFileContentProcess] at hopen
      have hclosed : (t.run os).session.fp = false := by
        rw [hfp, hzero]
        rfl
      simp only [hclosed, Bool.false_eq_true, if_false] at hopen
      by_contra hno
      rw [if_neg hno] at hopen
      cases hopen

theorem waiting_of_fits (hsent : t.Sent (t.packets os))
    (h : ∀ pre o, pre ++ [o] <+: os → t.Fits pre o) : ∀ pre, pre <+: os → t.Waiting pre := by
  induction os using List.reverseRecOn with
  | nil =>
    intro pre hpre
    rw [List.prefix_nil.1 hpre]
    exact waiting_nil t
  | append_singleton os o ih =>
    rw [packets_concat] at hsent
    have hbefore := ih hsent.of_concat fun pre o' hpre => h pre o'
        (hpre.trans (List.prefix_append os [o]))
    intro pre hpre
    rcases List.prefix_concat_iff.1 hpre with rfl | hpre
    · exact (hbefore os (List.prefix_refl os)).step hsent (h os o (List.prefix_refl _))
    · exact hbefore pre hpre

theorem fits_of_restored (hsent : t.Sent (t.packets os)) (h : ∀ pre, pre <+: os → t.Restored pre) :
    t.Waiting os ∧ ∀ pre o, pre ++ [o] <+: os → t.Fits pre o := by
  induction os using List.reverseRecOn with
  | nil => exact ⟨waiting_nil t, fun pre o hpre => absurd (List.prefix_nil.1 hpre) (by simp)⟩
  | append_singleton os o ih =>
    rw [packets_concat] at hsent
    obtain ⟨hwaiting, hfits⟩ :=
      ih hsent.of_concat fun pre hpre => h pre (hpre.trans (List.prefix_append os [o]))
    have hlast := hwaiting.fits hsent (h _ (List.prefix_refl _))
    refine ⟨hwaiting.step hsent hlast, fun pre o' hpre => ?_⟩
    rcases List.prefix_concat_iff.1 hpre with heq | hpre
    · obtain ⟨rfl, hsame⟩ := List.append_inj' heq rfl
      obtain rfl := List.singleton_inj.1 hsame
      exact hlast
    · exact hfits pre o' hpre

/-- The file is restored at every point of a capture exactly when every packet fits. -/
theorem restored_iff_fits {os : List t.Observed} (hsent : t.Sent (t.packets os)) :
    (∀ pre, pre <+: os → t.Restored pre) ↔ ∀ pre o, pre ++ [o] <+: os → t.Fits pre o :=
  ⟨fun h => (fits_of_restored hsent h).2, fun h pre hpre =>
    (waiting_of_fits hsent h pre hpre).restored⟩

section Captures

/-- The request for a file, with the name `f` and the mode `octet`. -/
def readRequest : PacketUdp :=
  { ipDlen := 10, tthLen := 42, payloadLen := 10
    pdata := some [0, 1, 102, 0, 111, 99, 116, 101, 116, 0]
    isIpv6 := false, srcIp := 1, dstIp := 2, srcAddr := 0, dstAddr := 0, srcPort :=
      40000, dstPort := 69 }

theorem readRequest_created :
    tftpAppSessionCreate readRequest ⟨true, true⟩ =
      some ⟨1, 2, 40000, 69, true, false, 0, false⟩ := by
  decide +kernel

def zeroFile : TftpTransfer :=
  ⟨List.replicate 600 0, readRequest, ⟨true, true⟩, _, readRequest_created⟩

def observe (t : TftpTransfer) (packet : TftpPacket) : t.Observed :=
  ⟨packet, { readRequest with payloadLen := (t.wire packet).length, pdata := some (t.wire packet) },
    ⟨true, true⟩, [], congrArg some (List.append_nil _).symm, rfl⟩

theorem zeroFile_blocks : zeroFile.blocks = 2 := by
  rw [blocks, zeroFile, List.length_replicate]
  rfl

theorem zeroFile_sent_again :
    zeroFile.Sent (zeroFile.packets [observe zeroFile (.data 1), observe zeroFile (.data 1)]) := by
  have hfirst : zeroFile.Sent [.data 1] := .block .nil (zeroFile_blocks ▸ Nat.two_pos) (.inl rfl)
  exact .dataAgain hfirst Nat.one_pos le_rfl

theorem restored_iff_zeroFile :
    (∀ pre, pre <+: [observe zeroFile (.data 1), observe zeroFile (.data 1)] →
      zeroFile.Restored pre) ↔
      ∀ pre o, pre ++ [o] <+: [observe zeroFile (.data 1), observe zeroFile (.data 1)] →
        zeroFile.Fits pre o :=
  restored_iff_fits zeroFile_sent_again

/-- The first block comes twice and is written twice. -/
theorem block_written_twice :
    ¬ ∀ (t : TftpTransfer) (os : List t.Observed), t.Sent (t.packets os) → t.Restored os := by
  intro h
  obtain ⟨-, hfits⟩ := fits_of_restored zeroFile_sent_again fun pre hpre =>
    h zeroFile pre (zeroFile_sent_again.of_prefix hpre)
  -- the second packet has block one, and block two is the one that fits
  rcases hfits [observe zeroFile (.data 1)] (observe zeroFile (.data 1)) (List.prefix_refl _) with
    hend | ⟨hnext, -⟩
  · rw [zeroFile_blocks] at hend
    exact absurd hend (by decide)
  · exact absurd hnext (by decide)

end Captures

end TftpTransfer

end CloudHands.Udp

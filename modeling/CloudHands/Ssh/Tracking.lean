import CloudHands.Ssh.Parse
import CloudHands.Tcp.PpDataInput

/-!
# The handshake does not depend on the pieces

A version line, then packets that are delimited by their length fields alone. What the parser knows
after some pieces is what it would know after all of them at once.
-/

namespace CloudHands.Ssh

open Lib Http
open PpDataInput (dropCR take_lineLen)

variable {h h' : SshHandshake} {din rest text : List UInt8}

/-- The input has six bytes and starts with the mark of the protocol. -/
def SshMark (din : List UInt8) : Prop := 6 ≤ din.length ∧ strncaseEq din "SSH-" 4

def SshHandshake.versioned (h : SshHandshake) (text : List UInt8) : SshHandshake where
  state := .version
  version := lineVersion h.version (dropCR text)
  protoVersion := some ((dropCR text).takeWhile (· ≠ 0))

theorem SshMark.append (hmark : SshMark din) (more : List UInt8) : SshMark (din ++ more) := by
  obtain ⟨hlen, hmark⟩ := hmark
  refine ⟨by rw [List.length_append]; omega, ?_⟩
  rwa [strncaseEq, List.take_append_of_le_length (by omega)]

theorem parseSshVersion_line (hmark : SshMark (text ++ LF :: rest)) (htext : LF ∉ text) :
    parseSshVersion h (text ++ LF :: rest) = .take (h.versioned text) rest := by
  obtain ⟨raw, hread, hraw⟩ := take_lineLen rest htext
  rw [parseSshVersion, if_neg (Nat.not_lt.2 hmark.1), if_neg (not_not.2 hmark.2), hread]
  simp only [hraw, SshHandshake.versioned]

theorem parseSshVersion_stop (hlen : 6 ≤ din.length) (hmark : ¬ strncaseEq din "SSH-" 4) :
    parseSshVersion h din = .stop := by
  rw [parseSshVersion, if_neg (Nat.not_lt.2 hlen), if_pos hmark]

theorem parseSshVersion_cases (h : SshHandshake) (din : List UInt8) :
    parseSshVersion h din = .wait ∨ (6 ≤ din.length ∧ ¬ strncaseEq din "SSH-" 4) ∨
      ∃ text rest, SshMark din ∧ LF ∉ text ∧ din = text ++ LF :: rest := by
  by_cases hlen : din.length < 6
  · exact .inl (if_pos hlen)
  by_cases hmark : strncaseEq din "SSH-" 4
  · cases hline : lineRead din with
    | none =>
      refine .inl ?_
      rw [parseSshVersion, if_neg hlen, if_neg (not_not.2 hmark), hline]
    | some line =>
      obtain ⟨text, htext, hraw, hdin⟩ := lineRead_eq_some hline
      refine .inr (.inr ⟨text, line.2, ⟨Nat.le_of_not_lt hlen, hmark⟩, htext, ?_⟩)
      rw [hdin, hraw, List.append_assoc]
      rfl
  · exact .inr (.inl ⟨Nat.le_of_not_lt hlen, hmark⟩)

def packetLen (din : List UInt8) : ℕ := ofBigEndian (din.take 4)

def NewkeysHeader (din : List UInt8) : Prop :=
  6 ≤ din.length ∧ 2 ≤ packetLen din ∧ din.getD 5 0 = msgNewkeys

def MalformedHeader (din : List UInt8) : Prop := 6 ≤ din.length ∧ packetLen din < 2

def WholePacket (packet : List UInt8) : Prop :=
  2 ≤ packetLen packet ∧ packet.length = 4 + packetLen packet

def StartsPlain (din : List UInt8) : Prop :=
  2 ≤ packetLen din ∧ din.getD 5 0 ≠ msgNewkeys ∧ 4 + packetLen din ≤ din.length

theorem packetLen_append (hlen : 4 ≤ din.length) (more : List UInt8) :
    packetLen (din ++ more) = packetLen din := by
  rw [packetLen, packetLen, List.take_append_of_le_length hlen]

theorem getD_append_of_lt {i : ℕ} (hi : i < din.length) (more : List UInt8) :
    (din ++ more).getD i 0 = din.getD i 0 := by
  rw [List.getD_eq_getElem?_getD, List.getD_eq_getElem?_getD, List.getElem?_append_left hi]

theorem NewkeysHeader.append (hkeys : NewkeysHeader din) (more : List UInt8) :
    NewkeysHeader (din ++ more) := by
  obtain ⟨hlen, hpacket, hcode⟩ := hkeys
  refine ⟨by rw [List.length_append]; omega, ?_, ?_⟩
  · rwa [packetLen_append (by omega)]
  · rwa [getD_append_of_lt (by omega)]

theorem MalformedHeader.append (hbad : MalformedHeader din) (more : List UInt8) :
    MalformedHeader (din ++ more) := by
  obtain ⟨hlen, hpacket⟩ := hbad
  refine ⟨by rw [List.length_append]; omega, ?_⟩
  rwa [packetLen_append (by omega)]

theorem StartsPlain.append (hplain : StartsPlain din) (more : List UInt8) :
    StartsPlain (din ++ more) := by
  obtain ⟨hpacket, hcode, hlen⟩ := hplain
  rw [StartsPlain, packetLen_append (by omega), getD_append_of_lt (by omega), List.length_append]
  exact ⟨hpacket, hcode, by omega⟩

theorem sshPacketParse_some (hlen : 6 ≤ din.length) (hpacket : 2 ≤ packetLen din) :
    sshPacketParse din = some ⟨packetLen din, din.getD 4 0, din.getD 5 0⟩ := by
  rw [sshPacketParse, if_neg (Nat.not_lt.2 hlen)]
  exact if_neg (Nat.not_lt.2 hpacket)

theorem sshPacketParse_none (hlen : 6 ≤ din.length) (hpacket : packetLen din < 2) :
    sshPacketParse din = none := by
  rw [sshPacketParse, if_neg (Nat.not_lt.2 hlen)]
  exact if_pos hpacket

theorem recordStep_newkeys (hkeys : NewkeysHeader din) :
    recordStep h din = .take { h with state := .nkey } (din.drop 6) := by
  obtain ⟨hlen, hpacket, hcode⟩ := hkeys
  rw [recordStep, if_neg (Nat.not_lt.2 hlen), sshPacketParse_some hlen hpacket]
  exact if_pos hcode

theorem recordStep_malformed (hbad : MalformedHeader din) : recordStep h din = .stop := by
  rw [recordStep, if_neg (Nat.not_lt.2 hbad.1), sshPacketParse_none hbad.1 hbad.2]

theorem recordStep_plain (hplain : StartsPlain din) :
    recordStep h din = .take h (din.drop (4 + packetLen din)) := by
  obtain ⟨hpacket, hcode, hlen⟩ := hplain
  have hsix : 6 ≤ din.length := by omega
  have hwhole : packetLen din ≤ (din.drop 6).length + 2 := by
    rw [List.length_drop]
    omega
  have hend : 6 + (packetLen din - 2) = 4 + packetLen din := by omega
  rw [recordStep, if_neg (Nat.not_lt.2 hsix), sshPacketParse_some hsix hpacket]
  simp only [if_neg hcode, if_pos hwhole, List.drop_drop, hend]

theorem recordStep_cases (h : SshHandshake) (din : List UInt8) :
    (recordStep h din = .wait ∧ ¬ NewkeysHeader din ∧ ¬ MalformedHeader din ∧
      din.length < 4 + max 2 (packetLen din)) ∨ NewkeysHeader din ∨ MalformedHeader din ∨
        StartsPlain din := by
  by_cases hlen : din.length < 6
  · exact .inl ⟨if_pos hlen, fun hkeys => absurd hkeys.1 (by omega), fun hbad =>
      absurd hbad.1 (by omega),
      by omega⟩
  by_cases hpacket : packetLen din < 2
  · exact .inr (.inr (.inl ⟨Nat.le_of_not_lt hlen, hpacket⟩))
  by_cases hcode : din.getD 5 0 = msgNewkeys
  · exact .inr (.inl ⟨Nat.le_of_not_lt hlen, Nat.le_of_not_lt hpacket, hcode⟩)
  by_cases hwhole : 4 + packetLen din ≤ din.length
  · exact .inr (.inr (.inr ⟨Nat.le_of_not_lt hpacket, hcode, hwhole⟩))
  · refine .inl ⟨?_, fun hkeys => hcode hkeys.2.2, fun hbad => hpacket hbad.2, by omega⟩
    have hshort : ¬ packetLen din ≤ (din.drop 6).length + 2 := by
      rw [List.length_drop]
      omega
    rw [recordStep, if_neg hlen,
      sshPacketParse_some (Nat.le_of_not_lt hlen) (Nat.le_of_not_lt hpacket)]
    simp only [if_neg hcode, if_neg hshort]

theorem parseStep_steady : Steady parseStep where
  wait_nil h := by cases hstate : h.state <;> simp [parseStep, hstate, parseSshVersion, recordStep]
  shorter := by
    intro h h' din rest hstep
    cases hstate : h.state with
    | init =>
      simp only [parseStep, hstate] at hstep
      rcases parseSshVersion_cases h din with hwait | ⟨hlen, hmark⟩ |
        ⟨text, rest', hmark, htext, rfl⟩
      · rw [hwait] at hstep
        cases hstep
      · rw [parseSshVersion_stop hlen hmark] at hstep
        cases hstep
      · rw [parseSshVersion_line hmark htext] at hstep
        cases hstep
        simp only [List.length_append, List.length_cons]
        omega
    | version =>
      simp only [parseStep, hstate] at hstep
      rcases recordStep_cases h din with ⟨hwait, -⟩ | hkeys | hbad | hplain
      · rw [hwait] at hstep
        cases hstep
      · rw [recordStep_newkeys hkeys] at hstep
        cases hstep
        have hlen := hkeys.1
        rw [List.length_drop]
        omega
      · rw [recordStep_malformed hbad] at hstep
        cases hstep
      · rw [recordStep_plain hplain] at hstep
        cases hstep
        have hlen := hplain.2.2
        rw [List.length_drop]
        omega
    | nkey =>
      simp only [parseStep, hstate] at hstep
      cases hstep
    | enc =>
      simp only [parseStep, hstate] at hstep
      cases hstep
  take_append := by
    intro h h' din rest hstep more
    cases hstate : h.state with
    | init =>
      simp only [parseStep, hstate] at hstep ⊢
      rcases parseSshVersion_cases h din with hwait | ⟨hlen, hmark⟩ |
        ⟨text, rest', hmark, htext, rfl⟩
      · rw [hwait] at hstep
        cases hstep
      · rw [parseSshVersion_stop hlen hmark] at hstep
        cases hstep
      · rw [parseSshVersion_line hmark htext] at hstep
        cases hstep
        have hmore := hmark.append more
        rw [List.append_assoc, List.cons_append] at hmore ⊢
        exact parseSshVersion_line hmore htext
    | version =>
      simp only [parseStep, hstate] at hstep ⊢
      rcases recordStep_cases h din with ⟨hwait, -⟩ | hkeys | hbad | hplain
      · rw [hwait] at hstep
        cases hstep
      · rw [recordStep_newkeys hkeys] at hstep
        cases hstep
        rw [recordStep_newkeys (hkeys.append more), List.drop_append_of_le_length hkeys.1]
      · rw [recordStep_malformed hbad] at hstep
        cases hstep
      · rw [recordStep_plain hplain] at hstep
        cases hstep
        have hlen := hplain.2.2
        rw [recordStep_plain (hplain.append more), packetLen_append (by omega),
          List.drop_append_of_le_length hlen]
    | nkey =>
      simp only [parseStep, hstate] at hstep
      cases hstep
    | enc =>
      simp only [parseStep, hstate] at hstep
      cases hstep
  stop_append := by
    intro h din hstep more
    cases hstate : h.state with
    | init =>
      simp only [parseStep, hstate] at hstep ⊢
      rcases parseSshVersion_cases h din with hwait | ⟨hlen, hmark⟩ |
        ⟨text, rest', hmark, htext, rfl⟩
      · rw [hwait] at hstep
        cases hstep
      · refine parseSshVersion_stop (by rw [List.length_append]; omega) ?_
        rwa [strncaseEq, List.take_append_of_le_length (by omega)]
      · rw [parseSshVersion_line hmark htext] at hstep
        cases hstep
    | version =>
      simp only [parseStep, hstate] at hstep ⊢
      rcases recordStep_cases h din with ⟨hwait, -⟩ | hkeys | hbad | hplain
      · rw [hwait] at hstep
        cases hstep
      · rw [recordStep_newkeys hkeys] at hstep
        cases hstep
      · exact recordStep_malformed (hbad.append more)
      · rw [recordStep_plain hplain] at hstep
        cases hstep
    | nkey =>
      simp only [parseStep, hstate] at hstep
      cases hstep
    | enc =>
      simp only [parseStep, hstate] at hstep
      cases hstep

def AtBoundary (din rest : List UInt8) : Prop :=
  ∃ packets : List (List UInt8), (∀ packet ∈ packets, WholePacket packet) ∧
    din = packets.flatten ++ rest

def Reaches (P : List UInt8 → Prop) (din : List UInt8) : Prop := ∃ rest, AtBoundary din rest ∧
    P rest

def StartsWhole (din : List UInt8) : Prop := 2 ≤ packetLen din ∧ 4 + packetLen din ≤ din.length

theorem WholePacket.startsWhole {packet : List UInt8} (hwhole : WholePacket packet)
    (more : List UInt8) :
    StartsWhole (packet ++ more) ∧ (packet ++ more).drop (4 + packetLen (packet ++ more)) =
      more := by
  obtain ⟨hpacket, hlen⟩ := hwhole
  have hsame : packetLen (packet ++ more) = packetLen packet := packetLen_append (by omega) more
  refine ⟨⟨by omega, ?_⟩, ?_⟩
  · rw [hsame, List.length_append]
    omega
  · rw [hsame, ← hlen, List.drop_left]

theorem StartsWhole.wholePacket (hstarts : StartsWhole din) :
    WholePacket (din.take (4 + packetLen din)) := by
  obtain ⟨hpacket, hlen⟩ := hstarts
  have hsame : packetLen (din.take (4 + packetLen din)) = packetLen din := by
    rw [packetLen, List.take_take, Nat.min_eq_left (by omega)]
    rfl
  refine ⟨by rwa [hsame], ?_⟩
  rw [hsame, List.length_take, Nat.min_eq_left hlen]

theorem atBoundary_iff : AtBoundary din rest ↔
    rest = din ∨ (StartsWhole din ∧ AtBoundary (din.drop (4 + packetLen din)) rest) := by
  constructor
  · rintro ⟨packets, hpackets, rfl⟩
    cases packets with
    | nil => exact .inl rfl
    | cons packet packets =>
      obtain ⟨hfirst, hpackets⟩ := List.forall_mem_cons.1 hpackets
      rw [List.flatten_cons, List.append_assoc]
      obtain ⟨hstarts, hrest⟩ := hfirst.startsWhole (packets.flatten ++ rest)
      exact .inr ⟨hstarts, packets, hpackets, hrest⟩
  · rintro (rfl | ⟨hstarts, packets, hpackets, hdin⟩)
    · exact ⟨[], List.forall_mem_nil _, rfl⟩
    · refine ⟨_ :: packets, List.forall_mem_cons.2 ⟨hstarts.wholePacket, hpackets⟩, ?_⟩
      rw [List.flatten_cons, List.append_assoc, ← hdin, List.take_append_drop]

theorem reaches_iff {P : List UInt8 → Prop} : Reaches P din ↔
    P din ∨ (StartsWhole din ∧ Reaches P (din.drop (4 + packetLen din))) := by
  constructor
  · rintro ⟨rest, hrest, hP⟩
    rcases atBoundary_iff.1 hrest with rfl | ⟨hstarts, hrest⟩
    · exact .inl hP
    · exact .inr ⟨hstarts, rest, hrest, hP⟩
  · rintro (hP | ⟨hstarts, rest, hrest, hP⟩)
    · exact ⟨din, atBoundary_iff.2 (.inl rfl), hP⟩
    · exact ⟨rest, atBoundary_iff.2 (.inr ⟨hstarts, hrest⟩), hP⟩

structure Tracked (h : SshHandshake) (body : List UInt8) (r : Settled SshHandshake UInt8) :
    Prop where
  version : r.state.version = h.version
  protoVersion : r.state.protoVersion = h.protoVersion
  newkeys : r.state.state = .nkey ↔ Reaches NewkeysHeader body
  gaveUp : r.gaveUp = true ↔ Reaches MalformedHeader body ∧ ¬ Reaches NewkeysHeader body
  left : r.state.state ≠ .nkey → r.gaveUp = false →
    r.state.state = .version ∧ AtBoundary body r.left ∧ ¬ StartsWhole r.left

theorem tracked_settle (hstate : h.state = .version) (body : List UInt8) :
    Tracked h body (settle parseStep h body) := by
  induction hlen : body.length using Nat.strong_induction_on generalizing body with
  | _ n ih =>
    have hstep : parseStep h body = recordStep h body := by
      rw [parseStep]
      simp only [hstate]
    rcases recordStep_cases h body with ⟨hwait, hkeys, hbad, hshort⟩ | hkeys | hbad | hplain
    · have hstarts : ¬ StartsWhole body := by
        rintro ⟨hpacket, hwhole⟩
        omega
      have hnever {P : List UInt8 → Prop} (hP : ¬ P body) : ¬ Reaches P body := by
        rw [reaches_iff]
        rintro (hP' | ⟨hstarts', -⟩)
        · exact hP hP'
        · exact hstarts hstarts'
      rw [settle_wait parseStep_steady (hstep.trans hwait)]
      exact {
        version := rfl
        protoVersion := rfl
        newkeys := by simp [hstate, hnever hkeys]
        gaveUp := by simp [hnever hbad]
        left := fun _ _ => ⟨hstate, atBoundary_iff.2 (.inl rfl), hstarts⟩ }
    · have hreaches : Reaches NewkeysHeader body := reaches_iff.2 (.inl hkeys)
      have hwait : parseStep { h with state := .nkey } (body.drop 6) = .wait := rfl
      rw [settle_take parseStep_steady (hstep.trans (recordStep_newkeys hkeys)),
        settle_wait parseStep_steady hwait]
      exact {
        version := rfl
        protoVersion := rfl
        newkeys := by simp [hreaches]
        gaveUp := by simp [hreaches]
        left := fun hnot => absurd rfl hnot }
    · have hnever : ¬ Reaches NewkeysHeader body := by
        rw [reaches_iff]
        rintro (hkeys | ⟨hstarts, -⟩)
        · exact absurd hkeys.2.1 (Nat.not_le.2 hbad.2)
        · exact absurd hstarts.1 (Nat.not_le.2 hbad.2)
      rw [settle_stop parseStep_steady (hstep.trans (recordStep_malformed hbad))]
      exact {
        version := rfl
        protoVersion := rfl
        newkeys := by simp [hstate, hnever]
        gaveUp := by simp [hnever, reaches_iff.2 (.inl hbad)]
        left := fun _ hgave => absurd hgave (by simp) }
    · have hstarts : StartsWhole body := ⟨hplain.1, hplain.2.2⟩
      have hlater {P : List UInt8 → Prop} (hP : ¬ P body) :
          Reaches P body ↔ Reaches P (body.drop (4 + packetLen body)) := by
        rw [reaches_iff, or_iff_right hP, and_iff_right hstarts]
      have hkeys := hlater fun hkeys : NewkeysHeader body => hplain.2.1 hkeys.2.2
      have hbad := hlater fun hbad : MalformedHeader body => absurd hbad.2 (Nat.not_lt.2 hplain.1)
      have hshorter : (body.drop (4 + packetLen body)).length < n := by
        have := hplain.2.2
        rw [List.length_drop]
        omega
      rw [settle_take parseStep_steady (hstep.trans (recordStep_plain hplain))]
      have htracked := ih _ hshorter _ rfl
      exact {
        version := htracked.version
        protoVersion := htracked.protoVersion
        newkeys := htracked.newkeys.trans hkeys.symm
        gaveUp := by rw [htracked.gaveUp, hkeys, hbad]
        left := fun hnot hgave => by
          obtain ⟨hversion, hboundary, hleft⟩ := htracked.left hnot hgave
          exact ⟨hversion, atBoundary_iff.2 (.inr ⟨hstarts, hboundary⟩), hleft⟩ }

/-- The direction stands where the parser does that is given its bytes at once. -/
structure Agrees (s : SshStream) (r : Settled SshHandshake UInt8) : Prop where
  handshake : s.sshData.toSshHandshake = r.state
  closed : s.closed = r.gaveUp
  dataInput : r.state.state ≠ .nkey → r.state.state ≠ .enc → s.closed = false → s.dataInput = r.left

section

variable {s : SshStream}

theorem doDataParse_done (hdone : s.sshData.state = .nkey ∨ s.sshData.state = .enc)
    (data : List UInt8) :
    doDataParse s data =
      { s with sshData := countEncrypted (countPacket s.sshData data.length) data.length } :=
  if_pos hdone

theorem doDataParse_nil (hdone : ¬ (s.sshData.state = .nkey ∨ s.sshData.state = .enc)) :
    doDataParse s [] = { s with sshData := countPacket s.sshData 0 } :=
  (if_neg hdone).trans (if_pos rfl)

theorem doDataParse_settle (hdone : ¬ (s.sshData.state = .nkey ∨ s.sshData.state = .enc))
    {data : List UInt8} (hdata : data ≠ []) :
    doDataParse s data =
      let r := settle parseStep s.sshData.toSshHandshake (s.dataInput ++ data)
      ⟨{ countPacket s.sshData data.length with toSshHandshake := r.state }, r.left, r.gaveUp⟩ :=
  (if_neg hdone).trans (if_neg hdata)

end

theorem Agrees.doDataParse {s : SshStream} {input : List UInt8}
    (hs : Agrees s (settle parseStep initHandshake input)) (hopen : s.closed = false)
    (data : List UInt8) :
    Agrees (doDataParse s data) (settle parseStep initHandshake (input ++ data)) := by
  have hgave := hs.closed.symm.trans hopen
  have hresume := settle_append parseStep_steady initHandshake input data
  rw [resume, hgave, if_neg (by decide)] at hresume
  have hstate : s.sshData.state = (settle parseStep initHandshake input).state.state := by
    rw [← hs.handshake]
  by_cases hdone : s.sshData.state = .nkey ∨ s.sshData.state = .enc
  · have hwait : ∀ din, parseStep (settle parseStep initHandshake input).state din = .wait := by
      intro din
      rw [hstate] at hdone
      rcases hdone with hnkey | henc
      · simp only [parseStep, hnkey]
      · simp only [parseStep, henc]
    rw [hresume, settle_wait parseStep_steady (hwait _), doDataParse_done hdone]
    refine ⟨hs.handshake, hopen, fun hnkey henc => ?_⟩
    rw [hstate] at hdone
    exact absurd hdone (not_or.2 ⟨hnkey, henc⟩)
  by_cases hdata : data = []
  · rw [hdata, List.append_nil, doDataParse_nil hdone]
    exact ⟨hs.handshake, hs.closed, hs.dataInput⟩
  · have hleft : s.dataInput = (settle parseStep initHandshake input).left := by
      rw [not_or, hstate] at hdone
      exact hs.dataInput hdone.1 hdone.2 hopen
    rw [hresume, doDataParse_settle hdone hdata, hleft, hs.handshake]
    exact ⟨rfl, rfl, fun _ _ _ => rfl⟩

theorem Agrees.sshRun {s : SshStream} {input : List UInt8}
    (hs : Agrees s (settle parseStep initHandshake input)) (pieces : List (List UInt8)) :
    Agrees (sshRun s pieces) (settle parseStep initHandshake (input ++ pieces.flatten)) := by
  induction pieces generalizing s input with
  | nil =>
    rw [List.flatten_nil, List.append_nil]
    exact hs
  | cons data pieces ih =>
    rw [List.flatten_cons, ← List.append_assoc, CloudHands.Ssh.sshRun, List.foldl_cons]
    refine ih ?_
    split_ifs with hclosed
    · have hgave := hs.closed.symm.trans hclosed
      rw [settle_append parseStep_steady, resume, hgave, if_pos rfl]
      exact ⟨hs.handshake, hclosed, fun _ _ hopen => absurd (hopen.symm.trans hclosed) (by decide)⟩
    · exact hs.doDataParse (Bool.eq_false_iff.2 hclosed) data

theorem sshRun_agrees (pieces : List (List UInt8)) :
    Agrees (sshRun .init pieces) (settle parseStep initHandshake pieces.flatten) := by
  have hinit : Agrees .init (settle parseStep initHandshake []) := ⟨rfl, rfl, fun _ _ _ => rfl⟩
  exact hinit.sshRun pieces

def SshStream.outcome (s : SshStream) : SshHandshake × Bool := (s.sshData.toSshHandshake, s.closed)

/-- The handshake that is tracked is the one of the bytes, however they are cut. -/
theorem newkeys_tracked :
    (∀ pieces pieces' : List (List UInt8), pieces.flatten = pieces'.flatten →
      (sshRun .init pieces).outcome = (sshRun .init pieces').outcome) ∧
    ∀ (text body : List UInt8) (pieces : List (List UInt8)), LF ∉ text →
      SshMark (text ++ LF :: body) →
      pieces.flatten = text ++ LF :: body →
      let s := sshRun .init pieces
      s.sshData.version = lineVersion .unknown (dropCR text) ∧
      s.sshData.protoVersion = some ((dropCR text).takeWhile (· ≠ 0)) ∧
      (s.sshData.state = .nkey ↔ Reaches NewkeysHeader body) ∧
      (s.closed = true ↔ Reaches MalformedHeader body ∧ ¬ Reaches NewkeysHeader body) ∧
      (s.sshData.state ≠ .nkey → s.closed = false →
        s.sshData.state = .version ∧ AtBoundary body s.dataInput ∧ ¬ StartsWhole s.dataInput) := by
  constructor
  · intro pieces pieces' hsame
    have hleft := sshRun_agrees pieces
    have hright := sshRun_agrees pieces'
    rw [← hsame] at hright
    rw [SshStream.outcome, SshStream.outcome, hleft.handshake, hleft.closed, hright.handshake,
      hright.closed]
  · intro text body pieces htext hmark hpieces s
    have hagrees := sshRun_agrees pieces
    have hline : parseStep initHandshake (text ++ LF :: body) =
        .take (initHandshake.versioned text) body :=
      parseSshVersion_line hmark htext
    rw [hpieces, settle_take parseStep_steady hline] at hagrees
    have htracked := tracked_settle (h := initHandshake.versioned text) rfl body
    have hstate : s.sshData.toSshHandshake = _ := hagrees.handshake
    refine ⟨?_, ?_, ?_, ?_, ?_⟩
    · rw [hstate, htracked.version]
      rfl
    · rw [hstate, htracked.protoVersion]
      rfl
    · rw [hstate]
      exact htracked.newkeys
    · rw [hagrees.closed]
      exact htracked.gaveUp
    · intro hnot hopen
      rw [hstate] at hnot
      obtain ⟨hversion, hboundary, hstarts⟩ := htracked.left hnot (hagrees.closed.symm.trans hopen)
      have hleft : s.dataInput = _ := hagrees.dataInput hnot (by rw [hversion]; decide) hopen
      rw [hleft, hstate]
      exact ⟨hversion, hboundary, hstarts⟩

/-- `SSH-2.0-a`, a packet of key exchange and the header of new keys, cut inside each of them. -/
def cutHandshake : List (List UInt8) :=
  [[83, 83, 72, 45, 50, 46], [48, 45, 97, CR, LF, 0, 0], [0, 3, 1, 20], [7, 0, 0, 0, 3, 1], [21]]

theorem cutHandshake_tracked :
    (sshRun .init cutHandshake).outcome = (sshRun .init [cutHandshake.flatten]).outcome ∧
      (sshRun .init cutHandshake).sshData.state = .nkey := by
  have hmark : SshMark ([83, 83, 72, 45, 50, 46, 48, 45, 97, CR] ++
      LF :: [0, 0, 0, 3, 1, 20, 7, 0, 0, 0, 3, 1, 21]) := ⟨by decide, by decide⟩
  have hboundary : AtBoundary [0, 0, 0, 3, 1, 20, 7, 0, 0, 0, 3, 1, 21] [0, 0, 0, 3, 1, 21] :=
    ⟨[[0, 0, 0, 3, 1, 20, 7]], List.forall_mem_singleton.2 ⟨by decide, by decide⟩, rfl⟩
  have htracked := newkeys_tracked.2 _ _ cutHandshake (by decide) hmark rfl
  exact ⟨newkeys_tracked.1 cutHandshake [cutHandshake.flatten] rfl,
    htracked.2.2.1.2 ⟨_, hboundary, by decide, by decide, by decide⟩⟩

end CloudHands.Ssh

import CloudHands.Mysql.Exchange

/-!
# Packets of MySQL streams

Once a login has been taken, the loops consume the packets of the bytes of each side, however these
were cut. The login itself is read as it comes.
-/

namespace CloudHands.Mysql

open Lib Http Proto
open Mail (Side)

def packetAt (din : List UInt8) : Option (MysqlPacket × List UInt8) :=
  match mysqlPacketParse din with
  | none => none
  | some pkt => if din.length < pkt.plen + 4 then none else some (pkt, (din.drop 4).take pkt.plen)

def frameStep (_ : Unit) (din : List UInt8) : Outcome Unit UInt8 :=
  match packetAt din with
  | none => .wait
  | some p => .take () (din.drop (p.1.plen + 4))

def framing (din : List UInt8) : List (MysqlPacket × List UInt8) × List UInt8 :=
  (taken packetAt frameStep () din, (settle frameStep () din).left)

def seqs (packets : List (MysqlPacket × List UInt8)) : List UInt8 := packets.map (·.1.seq)

section

variable {din : List UInt8} {p : MysqlPacket × List UInt8}

theorem packetAt_eq_some (h : packetAt din = some p) :
    mysqlPacketParse din = some p.1 ∧ p.1.plen + 4 ≤ din.length ∧
      p.2 = (din.drop 4).take p.1.plen := by
  unfold packetAt at h
  cases hpkt : mysqlPacketParse din with
  | none =>
    rw [hpkt] at h
    cases h
  | some pkt =>
    simp only [hpkt] at h
    split_ifs at h with hlen
    cases h
    exact ⟨rfl, Nat.le_of_not_lt hlen, rfl⟩

theorem packetAt_append (h : packetAt din = some p) (more : List UInt8) :
    packetAt (din ++ more) = some p ∧
      (din ++ more).drop (p.1.plen + 4) = din.drop (p.1.plen + 4) ++ more := by
  obtain ⟨hpkt, hlen, hpayload⟩ := packetAt_eq_some h
  obtain ⟨hall, hsame, hrest⟩ := packet_append (Nat.not_lt.2 hlen) more
  refine ⟨?_, hrest⟩
  rw [packetAt, mysqlPacketParse_append hpkt]
  simp only [if_neg hall, hsame, ← hpayload]

theorem frameStep_wait (h : packetAt din = none) : frameStep () din = .wait := by
  rw [frameStep, h]

theorem frameStep_take (h : packetAt din = some p) :
    frameStep () din = .take () (din.drop (p.1.plen + 4)) := by
  rw [frameStep, h]

theorem drop_packet_lt (h : packetAt din = some p) :
    (din.drop (p.1.plen + 4)).length < din.length := by
  have hlen := (packetAt_eq_some h).2.1
  rw [List.length_drop]
  omega

theorem frameStep_steady : Steady frameStep where
  wait_nil _ := rfl
  shorter := by
    intro _ _ din rest hstep
    cases h : packetAt din with
    | none =>
      rw [frameStep_wait h] at hstep
      cases hstep
    | some p =>
      rw [frameStep_take h] at hstep
      cases hstep
      exact drop_packet_lt h
  take_append := by
    intro _ _ din rest hstep more
    cases h : packetAt din with
    | none =>
      rw [frameStep_wait h] at hstep
      cases hstep
    | some p =>
      rw [frameStep_take h] at hstep
      cases hstep
      obtain ⟨hmore, hrest⟩ := packetAt_append h more
      rw [frameStep_take hmore, hrest]
  stop_append := by
    intro _ din hstep
    cases h : packetAt din with
    | none =>
      rw [frameStep_wait h] at hstep
      cases hstep
    | some p =>
      rw [frameStep_take h] at hstep
      cases hstep

theorem packets_induction {motive : List UInt8 → Prop}
    (none : ∀ din, packetAt din = none → motive din)
    (some : ∀ din p, packetAt din = some p → motive (din.drop (p.1.plen + 4)) → motive din)
    (din : List UInt8) : motive din := by
  induction hlen : din.length using Nat.strong_induction_on generalizing din with
  | _ n ih =>
    cases h : packetAt din with
    | none => exact none din h
    | some p => exact some din p h (ih _ (hlen ▸ drop_packet_lt h) _ rfl)

theorem framing_none (h : packetAt din = none) : framing din = ([], din) := by
  rw [framing, taken_wait frameStep_steady (frameStep_wait h),
    settle_wait frameStep_steady (frameStep_wait h)]

theorem framing_some (h : packetAt din = some p) :
    framing din =
      (p :: (framing (din.drop (p.1.plen + 4))).1, (framing (din.drop (p.1.plen + 4))).2) := by
  rw [framing, taken_take frameStep_steady (frameStep_take h),
    settle_take frameStep_steady (frameStep_take h), h]
  rfl

theorem packetAt_left (din : List UInt8) : packetAt (framing din).2 = none := by
  induction din using packets_induction with
  | none din h => rwa [framing_none h]
  | some din p h ih => rwa [framing_some h]

theorem framing_append (din more : List UInt8) :
    framing (din ++ more) =
      ((framing din).1 ++ (framing ((framing din).2 ++ more)).1,
        (framing ((framing din).2 ++ more)).2) := by
  induction din using packets_induction with
  | none din h =>
    rw [framing_none h]
    rfl
  | some din p h ih =>
    obtain ⟨hmore, hrest⟩ := packetAt_append h more
    rw [framing_some hmore, hrest, ih, framing_some h]
    rfl

theorem framing_length (din : List UInt8) :
    ((framing din).1.map fun p => p.1.plen + 4).sum + (framing din).2.length = din.length := by
  induction din using packets_induction with
  | none din h =>
    rw [framing_none h, List.map_nil, List.sum_nil, Nat.zero_add]
  | some din p h ih =>
    have hlen := (packetAt_eq_some h).2.1
    rw [List.length_drop] at ih
    rw [framing_some h]
    simp only [List.map_cons, List.sum_cons]
    omega

end

def numbers (entries : List SessionData) : List UInt8 := entries.map (·.curSeq)

/-- A response takes the place of the first number it follows. -/
def answered (nums : List UInt8) (seq : UInt8) : Option (List UInt8) :=
  (nums.findIdx? fun num => num.toNat + 1 = seq.toNat).map fun i => nums.set i seq

def zeroHeader (din : List UInt8) : Bool := (mysqlPacketParse din).any (·.seq = 0)

def answers (nums : List UInt8) (din : List UInt8) : Option (List UInt8) :=
  if zeroHeader (framing din).2 then none else (seqs (framing din).1).foldlM answered nums

theorem numbers_modify (entries : List SessionData) (i : ℕ) (payload : List UInt8) (seq : UInt8) :
    numbers (entries.modify i (responsePacketContentParse payload seq)) =
      (numbers entries).set i seq := by
  induction entries generalizing i with
  | nil => cases i <;> rfl
  | cons sdata entries ih =>
    cases i with
    | zero => rfl
    | succ i =>
      rw [List.modify_succ_cons]
      exact congrArg (sdata.curSeq :: ·) (ih i)

theorem numbers_respond (entries : List SessionData) (p : MysqlPacket × List UInt8) :
    (respond entries (p.1.seq, p.2)).map numbers = answered (numbers entries) p.1.seq := by
  have hfind : (numbers entries).findIdx? (fun num => num.toNat + 1 = p.1.seq.toNat) =
      findSessionData entries p.1.seq := by
    rw [numbers, List.findIdx?_map]
    rfl
  rw [answered, hfind, respond]
  by_cases hzero : p.1.seq.toNat < 1
  · have hnone : findSessionData entries p.1.seq = none := by
      rw [findSessionData, List.findIdx?_eq_none_iff]
      intro sdata _
      have hnot : ¬ sdata.curSeq.toNat + 1 = p.1.seq.toNat := by omega
      exact decide_eq_false hnot
    rw [if_pos hzero, hnone]
    rfl
  · rw [if_neg hzero, Option.map_map]
    congr 1
    funext i
    exact numbers_modify entries i p.2 p.1.seq

section

variable {entries : List SessionData} {din : List UInt8} {p : MysqlPacket × List UInt8}

theorem requestPacketStep_wait (h : packetAt din = none) :
    requestPacketStep entries din = .wait := by
  unfold packetAt at h
  cases hpkt : mysqlPacketParse din with
  | none => rw [requestPacketStep, hpkt]
  | some pkt =>
    simp only [hpkt] at h
    split_ifs at h with hlen
    simp only [requestPacketStep, hpkt, if_pos hlen]

theorem requestPacketStep_take (h : packetAt din = some p) :
    requestPacketStep entries din =
      .take (requestPacketContentParse entries p.2 p.1.seq) (din.drop (p.1.plen + 4)) := by
  obtain ⟨hpkt, hlen, hpayload⟩ := packetAt_eq_some h
  simp only [requestPacketStep, hpkt, if_neg (Nat.not_lt.2 hlen), hpayload]

theorem responsePacketStep_none (h : packetAt din = none) (entries : List SessionData) :
    responsePacketStep entries din = if zeroHeader din then .stop else .wait := by
  unfold packetAt at h
  cases hpkt : mysqlPacketParse din with
  | none => simp [responsePacketStep, zeroHeader, hpkt]
  | some pkt =>
    simp only [hpkt] at h
    split_ifs at h with hlen
    have hzero : pkt.seq.toNat < 1 ↔ pkt.seq = 0 := by
      rw [Nat.lt_one_iff]
      exact ⟨fun hseq => UInt8.toNat_inj.1 hseq, fun hseq => congrArg UInt8.toNat hseq⟩
    simp [responsePacketStep, zeroHeader, hpkt, hlen, hzero]

theorem responsePacketStep_some (h : packetAt din = some p) (entries : List SessionData) :
    responsePacketStep entries din =
      (respond entries (p.1.seq, p.2)).elim .stop (.take · (din.drop (p.1.plen + 4))) := by
  obtain ⟨hpkt, hlen, hpayload⟩ := packetAt_eq_some h
  simp only [responsePacketStep, respond, hpkt, if_neg (Nat.not_lt.2 hlen), hpayload]
  split_ifs
  · rfl
  · cases findSessionData entries p.1.seq <;> rfl

end

theorem request_loop (entries : List SessionData) (din : List UInt8) :
    ∃ entries', drain requestPacketStep entries din = some (entries', (framing din).2) ∧
      numbers entries' = numbers entries ++ seqs (framing din).1 ∧
      taken packetAt requestPacketStep entries din = (framing din).1 := by
  induction din using packets_induction generalizing entries with
  | none din h =>
    rw [framing_none h, drain_wait requestPacketStep_steady (requestPacketStep_wait h),
      taken_wait requestPacketStep_steady (requestPacketStep_wait h)]
    exact ⟨entries, rfl, (List.append_nil _).symm, rfl⟩
  | some din p h ih =>
    obtain ⟨entries', hdrain, hnums, htaken⟩ := ih (requestPacketContentParse entries p.2 p.1.seq)
    rw [framing_some h, drain_take requestPacketStep_steady (requestPacketStep_take h),
      taken_take requestPacketStep_steady (requestPacketStep_take h), h, htaken]
    refine ⟨entries', hdrain, ?_, rfl⟩
    rw [hnums, numbers, requestPacketContentParse, List.map_append, List.append_assoc]
    rfl

theorem response_loop (entries : List SessionData) (din : List UInt8) :
    (drain responsePacketStep entries din).map (fun r => numbers r.1) = answers
    (numbers entries) din ∧
      ∀ r, drain responsePacketStep entries din = some r →
        r.2 = (framing din).2 ∧ taken packetAt responsePacketStep entries din =
          (framing din).1 := by
  induction din using packets_induction generalizing entries with
  | none din h =>
    have hstep := responsePacketStep_none h entries
    rw [answers, framing_none h]
    split_ifs at hstep ⊢ with hzero
    · rw [drain_stop responsePacketStep_steady hstep]
      exact ⟨rfl, fun r hr => absurd hr (by simp)⟩
    · rw [drain_wait responsePacketStep_steady hstep, taken_wait responsePacketStep_steady hstep]
      refine ⟨rfl, fun r hr => ?_⟩
      cases hr
      exact ⟨rfl, rfl⟩
  | some din p h ih =>
    have hstep := responsePacketStep_some h entries
    have hnums := numbers_respond entries p
    have hfold : answers (numbers entries) din =
        (answered (numbers entries) p.1.seq).bind fun nums => answers nums
        (din.drop (p.1.plen + 4)) := by
      simp only [answers, framing_some h, seqs, List.map_cons, List.foldlM_cons]
      split_ifs
      · cases answered (numbers entries) p.1.seq <;> rfl
      · rfl
    rw [hfold, ← hnums]
    cases hrespond : respond entries (p.1.seq, p.2) with
    | none =>
      rw [hrespond] at hstep
      rw [drain_stop responsePacketStep_steady hstep]
      exact ⟨rfl, fun r hr => absurd hr (by simp)⟩
    | some entries' =>
      rw [hrespond] at hstep
      rw [drain_take responsePacketStep_steady hstep, taken_take responsePacketStep_steady hstep, h,
        framing_some h]
      obtain ⟨hdrain, htaken⟩ := ih entries'
      refine ⟨hdrain, fun r hr => ?_⟩
      obtain ⟨hleft, hpackets⟩ := htaken r hr
      exact ⟨hleft, congrArg (p :: ·) hpackets⟩

def sideBytes (side : Side) (segs : List (Side × List UInt8)) : List UInt8 :=
  (segs.filter (·.1 = side)).flatMap (·.2)

def packetsOf (e : MysqlEntry) (seg : Side × List UInt8) : List (MysqlPacket × List UInt8) :=
  match e.msession with
  | none => []
  | some s =>
    if s.authPhrase = .ack then
      match seg.1 with
      | .client => taken packetAt requestPacketStep s.entries (readPrefare e.dataInputCli seg.2)
      | .server => taken packetAt responsePacketStep s.entries (readPrefare e.dataInputSrv seg.2)
    else []

def packetsRead (side : Side) : MysqlEntry → List (Side × List UInt8) →
    List (MysqlPacket × List UInt8)
  | _, [] => []
  | e, seg :: segs =>
    (if seg.1 = side then packetsOf e seg else []) ++
      match dataParse e seg with
      | none => []
      | some e' => packetsRead side e' segs

/-- Every response follows the number of a command or of an earlier response to it, at the time it
is complete, and no header of a response has the number 0. -/
def follows : List UInt8 → List UInt8 → List UInt8 → List (Side × List UInt8) → Bool
  | _, _, _, [] => true
  | nums, cli, srv, (.client, data) :: segs =>
    follows (nums ++ seqs (framing (cli ++ data)).1) (framing (cli ++ data)).2 srv segs
  | nums, cli, srv, (.server, data) :: segs =>
    match answers nums (srv ++ data) with
    | none => false
    | some nums' => follows nums' cli (framing (srv ++ data)).2 segs

section

variable {side side' : Side} {e e' : MysqlEntry} {data : List UInt8} {seg : Side × List UInt8}
  {segs : List (Side × List UInt8)}

theorem sideBytes_same (side : Side) (data : List UInt8) (segs : List (Side × List UInt8)) :
    sideBytes side ((side, data) :: segs) = data ++ sideBytes side segs := by
  rw [sideBytes, List.filter_cons_of_pos (by simp)]
  rfl

theorem sideBytes_other (h : side' ≠ side) :
    sideBytes side ((side', data) :: segs) = sideBytes side segs := by
  rw [sideBytes, List.filter_cons_of_neg (by simpa using h)]
  rfl

theorem packetsRead_same (hparse : dataParse e (side, data) = some e') :
    packetsRead side e ((side, data) :: segs) = packetsOf e (side,
      data) ++ packetsRead side e' segs := by
  rw [packetsRead, if_pos rfl, hparse]

theorem packetsRead_other (h : side' ≠ side) (hparse : dataParse e (side', data) = some e') :
    packetsRead side e ((side', data) :: segs) = packetsRead side e' segs := by
  rw [packetsRead, if_neg h, hparse, List.nil_append]

theorem run_cons (hparse : dataParse e seg = some e') : run e (seg :: segs) = run e' segs := by
  rw [run, List.foldlM_cons, hparse]
  rfl

theorem run_break (hparse : dataParse e seg = none) : run e (seg :: segs) = none := by
  rw [run, List.foldlM_cons, hparse]
  rfl

end

def between (s : MysqlSession) (entries : List SessionData) (cli srv : List UInt8) : MysqlEntry :=
  ⟨cli, srv, some { s with entries := entries }⟩

section

variable {s : MysqlSession} (hs : s.authPhrase = .ack) {entries : List SessionData}
  {cli srv data : List UInt8}
include hs

theorem dataParse_command (entries : List SessionData) (cli srv data : List UInt8) :
    ∃ entries', dataParse (between s entries cli srv) (.client, data) =
        some (between s entries' (framing (cli ++ data)).2 srv) ∧
      numbers entries' = numbers entries ++ seqs (framing (cli ++ data)).1 ∧
      packetsOf (between s entries cli srv) (.client, data) = (framing (cli ++ data)).1 := by
  obtain ⟨entries', hdrain, hnums, htaken⟩ := request_loop entries (cli ++ data)
  refine ⟨entries', ?_, hnums, ?_⟩
  · simp only [dataParse, requestParse, between, hs, readPrefare, hdrain]
    rfl
  · simp only [packetsOf, between, hs, if_pos, readPrefare, htaken]

theorem dataParse_response_none (hnums : answers (numbers entries) (srv ++ data) = none) :
    dataParse (between s entries cli srv) (.server, data) = none := by
  obtain ⟨hdrain, -⟩ := response_loop entries (srv ++ data)
  rw [hnums, Option.map_eq_none_iff] at hdrain
  simp only [dataParse, responseParse, between, hs, readPrefare, hdrain]
  rfl

theorem dataParse_response_some {nums : List UInt8}
    (hnums : answers (numbers entries) (srv ++ data) = some nums) (cli : List UInt8) :
    ∃ entries', dataParse (between s entries cli srv) (.server, data) =
        some (between s entries' cli (framing (srv ++ data)).2) ∧
      numbers entries' = nums ∧
      packetsOf (between s entries cli srv) (.server, data) = (framing (srv ++ data)).1 := by
  obtain ⟨hdrain, htaken⟩ := response_loop entries (srv ++ data)
  rw [hnums, Option.map_eq_some_iff] at hdrain
  obtain ⟨⟨entries', left⟩, hdrain, hentries⟩ := hdrain
  obtain ⟨hleft, hpackets⟩ := htaken _ hdrain
  simp only at hleft
  refine ⟨entries', ?_, hentries, ?_⟩
  · simp only [dataParse, responseParse, between, hs, readPrefare, hdrain, hleft]
    rfl
  · simp only [packetsOf, between, hs, if_pos, readPrefare, hpackets]

theorem commands_run (entries : List SessionData) (segs : List (Side × List UInt8))
    (hcli : packetAt cli = none)
    (hsrv : packetAt srv = none) (hfollows : follows (numbers entries) cli srv segs) :
    ∃ entries', run (between s entries cli srv) segs =
        some (between s entries' (framing (cli ++ sideBytes .client segs)).2
          (framing (srv ++ sideBytes .server segs)).2) ∧
      packetsRead .client (between s entries cli srv) segs =
        (framing (cli ++ sideBytes .client segs)).1 ∧
      packetsRead .server (between s entries cli srv) segs =
        (framing (srv ++ sideBytes .server segs)).1 := by
  induction segs generalizing entries cli srv with
  | nil =>
    rw [sideBytes, sideBytes]
    simp only [List.filter_nil, List.flatMap_nil, List.append_nil, framing_none hcli,
      framing_none hsrv]
    exact ⟨entries, rfl, rfl, rfl⟩
  | cons seg segs ih =>
    obtain ⟨side, data⟩ := seg
    cases side with
    | client =>
      obtain ⟨entries', hparse, hnums, hpackets⟩ :=
        dataParse_command hs entries cli srv data
      rw [follows, ← hnums] at hfollows
      obtain ⟨entries₂, hrun, hclient, hserver⟩ :=
        ih entries' (packetAt_left (cli ++ data)) hsrv hfollows
      rw [sideBytes_same, sideBytes_other (by decide), ← List.append_assoc,
        framing_append (cli ++ data), run_cons hparse, packetsRead_same hparse,
        packetsRead_other (by decide) hparse, hpackets]
      exact ⟨entries₂, hrun, congrArg _ hclient, hserver⟩
    | server =>
      cases hnums : answers (numbers entries) (srv ++ data) with
      | none =>
        rw [follows, hnums] at hfollows
        cases hfollows
      | some nums =>
        obtain ⟨entries', hparse, hentries, hpackets⟩ := dataParse_response_some hs hnums cli
        rw [follows, hnums, ← hentries] at hfollows
        obtain ⟨entries₂, hrun, hclient, hserver⟩ :=
          ih entries' hcli (packetAt_left (srv ++ data)) hfollows
        rw [sideBytes_same, sideBytes_other (by decide), ← List.append_assoc,
          framing_append (srv ++ data), run_cons hparse, packetsRead_same hparse,
          packetsRead_other (by decide) hparse, hpackets]
        exact ⟨entries₂, hrun, hclient, congrArg _ hserver⟩

theorem commands_break (entries : List SessionData) (segs : List (Side × List UInt8))
    (hfollows : ¬ follows (numbers entries) cli srv segs) :
      run (between s entries cli srv) segs = none := by
  induction segs generalizing entries cli srv with
  | nil => exact absurd rfl hfollows
  | cons seg segs ih =>
    obtain ⟨side, data⟩ := seg
    cases side with
    | client =>
      obtain ⟨entries', hparse, hnums, -⟩ :=
        dataParse_command hs entries cli srv data
      rw [follows, ← hnums] at hfollows
      rw [run_cons hparse]
      exact ih entries' hfollows
    | server =>
      cases hnums : answers (numbers entries) (srv ++ data) with
      | none => exact run_break (dataParse_response_none hs hnums)
      | some nums =>
        obtain ⟨entries', hparse, hentries, -⟩ := dataParse_response_some hs hnums cli
        rw [follows, hnums, ← hentries] at hfollows
        rw [run_cons hparse]
        exact ih entries' hfollows

end

def LoginOk (data : List UInt8) : Prop :=
  5 ≤ data.length ∧ (mysqlPacketParse data).any (·.seq = 2) ∧ data.getD 4 0 = 0

structure Login where
  greeting : List UInt8
  login : List UInt8
  answer : List UInt8
  isMysql : isMysql greeting
  isOk : LoginOk answer

structure LoginCut (x : Login) where
  greeting : List (List UInt8)
  login : List (List UInt8)
  answer : List (List UInt8)
  greeting_flatten : greeting.flatten = x.greeting
  login_flatten : login.flatten = x.login
  answer_flatten : answer.flatten = x.answer

def piecesOf (side : Side) (pieces : List (List UInt8)) : List (Side × List UInt8) :=
  pieces.map (side, ·)

def LoginCut.segs {x : Login} (c : LoginCut x) : List (Side × List UInt8) :=
  piecesOf .server c.greeting ++ piecesOf .client c.login ++ piecesOf .server c.answer

def sessionOf (greeting login : List UInt8) : MysqlSession where
  authPhrase := .ack
  authState := .ok
  version := readStr greeting 5
  user := if 37 < login.length then readStr login 36 else []
  entries := []

def Login.session (x : Login) : MysqlSession := sessionOf x.greeting x.login

/-- The login is taken, the loops consume the packets of what either side sends behind it, and what
is behind these packets is kept. -/
def Framed {x : Login} (c : LoginCut x) (segs : List (Side × List UInt8)) : Prop :=
  ∃ entries, run .init (c.segs ++ segs) =
      some (between x.session entries (framing (sideBytes .client segs)).2
        (framing (sideBytes .server segs)).2) ∧
    packetsRead .client .init (c.segs ++ segs) = (framing (sideBytes .client segs)).1 ∧
    packetsRead .server .init (c.segs ++ segs) = (framing (sideBytes .server segs)).1

def LoginCut.Whole {x : Login} (c : LoginCut x) : Prop :=
  c.greeting = [x.greeting] ∧ c.login = [x.login] ∧ c.answer.head? = some x.answer

section

variable {s : MysqlSession} {e e' : MysqlEntry} {data : List UInt8}
  {segs : List (Side × List UInt8)}

theorem dataParse_greeting (hmysql : isMysql data) :
    dataParse .init (.server, data) =
      some ⟨[], [], some (mysqlSessionCreate (readStr data 5))⟩ := by
  simp [dataParse, hmysql, responseParse, MysqlEntry.init]

theorem dataParse_init {seg : Side × List UInt8} (h : dataParse .init seg = some e) :
    ∃ data, seg = (.server, data) ∧ isMysql data := by
  obtain ⟨side, data⟩ := seg
  cases side with
  | client => simp [dataParse, MysqlEntry.init] at h
  | server =>
    refine ⟨data, rfl, ?_⟩
    by_contra hmysql
    simp [dataParse, MysqlEntry.init, hmysql] at h

theorem dataParse_res_server (hs : e.msession = some s) (hphrase : s.authPhrase = .res) :
    dataParse e (.server, data) = none := by
  simp [dataParse, responseParse, hs, hphrase]

theorem dataParse_res_client (hs : e.msession = some s) (hphrase : s.authPhrase = .res)
    (data : List UInt8) :
    dataParse e (.client, data) = some { e with
      msession := some { s with
        user := if 37 < data.length then readStr data 36 else s.user
        authPhrase := .req } } := by
  simp [dataParse, requestParse, hs, hphrase]

theorem dataParse_req_client (hs : e.msession = some s) (hphrase : s.authPhrase = .req) :
    dataParse e (.client, data) = none := by
  simp [dataParse, requestParse, hs, hphrase]

theorem loginOk_iff : LoginOk data ↔
    ¬ data.length < 5 ∧ ¬ (mysqlPacketParse data).all (·.seq ≠ 2) ∧ data.getD 4 0 = 0 := by
  rw [LoginOk, Nat.not_lt]
  cases mysqlPacketParse data with
  | none => simp
  | some pkt => simp

theorem dataParse_req_server (hs : e.msession = some s) (hphrase : s.authPhrase = .req) :
    dataParse e (.server, data) =
      if data.length < 5 then none
      else if (mysqlPacketParse data).all (·.seq ≠ 2) then none
      else if data.getD 4 0 = 0 then
        some { e with msession := some { s with authPhrase := .ack, authState := .ok } }
      else none := by
  simp only [dataParse, responseParse, hs, hphrase]
  rfl

theorem dataParse_req_ok (hs : e.msession = some s) (hphrase : s.authPhrase = .req)
    (hok : LoginOk data) :
    dataParse e (.server, data) =
      some { e with msession := some { s with authPhrase := .ack, authState := .ok } } := by
  obtain ⟨hlen, hseq, hcode⟩ := loginOk_iff.1 hok
  rw [dataParse_req_server hs hphrase, if_neg hlen, if_neg hseq, if_pos hcode]

theorem loginOk_of_dataParse (hs : e.msession = some s) (hphrase : s.authPhrase = .req)
    (h : dataParse e (.server, data) = some e') : LoginOk data := by
  rw [dataParse_req_server hs hphrase] at h
  split_ifs at h with hlen hall hcode
  exact loginOk_iff.2 ⟨hlen, hall, hcode⟩

theorem packetsOf_login (hs : e.msession = some s) (hphrase : s.authPhrase ≠ .ack)
    (seg : Side × List UInt8) : packetsOf e seg = [] := by
  simp only [packetsOf, hs, if_neg hphrase]

end

section

variable {g l r : List UInt8} {segs : List (Side × List UInt8)}

theorem login_run (hmysql : isMysql g) (hok : LoginOk r) (segs : List (Side × List UInt8)) :
    run .init ((.server, g) :: (.client, l) :: (.server, r) :: segs) =
        run (between (sessionOf g l) [] [] []) segs ∧
      ∀ side, packetsRead side .init ((.server, g) :: (.client, l) :: (.server, r) :: segs) =
        packetsRead side (between (sessionOf g l) [] [] []) segs := by
  have hgreeting := dataParse_greeting hmysql
  have hlogin := dataParse_res_client
      (e := ⟨[], [], some (mysqlSessionCreate (readStr g 5))⟩) rfl rfl l
  have hanswer := dataParse_req_ok (e := ⟨[], [], some { mysqlSessionCreate (readStr g 5) with
    user := if 37 < l.length then readStr l 36 else []
    authPhrase := .req }⟩) rfl rfl hok
  refine ⟨?_, fun side => ?_⟩
  · rw [run_cons hgreeting, run_cons hlogin]
    exact run_cons hanswer
  · have hnone {e : MysqlEntry} {s : MysqlSession} (hs : e.msession = some s)
        (hphrase : s.authPhrase ≠ .ack)
        {e' : MysqlEntry} {seg : Side × List UInt8} (hparse : dataParse e seg = some e')
        (rest : List (Side × List UInt8)) :
        packetsRead side e (seg :: rest) = packetsRead side e' rest := by
      rw [packetsRead, packetsOf_login hs hphrase, ite_self, hparse, List.nil_append]
    have hinit : packetsRead side .init ((.server, g) :: (.client, l) :: (.server, r) :: segs) =
        packetsRead side ⟨[], [], some (mysqlSessionCreate (readStr g 5))⟩
          ((.client, l) :: (.server, r) :: segs) := by
      have hpackets : packetsOf .init (.server, g) = [] := rfl
      rw [packetsRead, hpackets, ite_self, hgreeting, List.nil_append]
    rw [hinit, hnone rfl (by simp [mysqlSessionCreate]) hlogin]
    exact hnone rfl (by simp) hanswer segs

theorem login_pieces {gs ls rs : List (List UInt8)} {e : MysqlEntry} (hg : gs.flatten ≠ [])
    (hr : rs.flatten ≠ [])
    (hrun :
      run .init (piecesOf .server gs ++ piecesOf .client ls ++ piecesOf .server rs ++ segs) =
        some e) :
    ∃ g l r rs', gs = [g] ∧ ls = [l] ∧ rs = r :: rs' ∧ isMysql g ∧ LoginOk r := by
  obtain _ | ⟨g, gs⟩ := gs
  · exact absurd rfl hg
  obtain _ | ⟨r, rs⟩ := rs
  · exact absurd rfl hr
  by_cases hmysql : isMysql g
  · have hgreeting := dataParse_greeting hmysql
    simp only [piecesOf, List.map_cons, List.cons_append] at hrun
    rw [run_cons hgreeting] at hrun
    obtain _ | ⟨g', gs⟩ := gs
    · obtain _ | ⟨l, ls⟩ := ls
      · simp only [List.map_nil, List.nil_append, List.cons_append] at hrun
        rw [run_break (dataParse_res_server rfl rfl)] at hrun
        cases hrun
      · have hlogin := dataParse_res_client (e := ⟨[], [], some (mysqlSessionCreate (readStr g 5))⟩)
          rfl rfl l
        simp only [List.map_nil, List.map_cons, List.nil_append, List.cons_append] at hrun
        rw [run_cons hlogin] at hrun
        obtain _ | ⟨l', ls⟩ := ls
        · simp only [List.map_nil, List.nil_append, List.cons_append] at hrun
          refine ⟨g, l, r, rs, rfl, rfl, rfl, hmysql, ?_⟩
          by_contra hnot
          rw [run_break] at hrun
          · cases hrun
          · by_contra hsome
            obtain ⟨e', he'⟩ := Option.ne_none_iff_exists'.1 hsome
            exact hnot (loginOk_of_dataParse rfl rfl he')
        · simp only [List.map_cons, List.cons_append] at hrun
          rw [run_break (dataParse_req_client rfl rfl)] at hrun
          cases hrun
    · simp only [List.map_cons, List.cons_append] at hrun
      rw [run_break (dataParse_res_server rfl rfl)] at hrun
      cases hrun
  · simp only [piecesOf, List.map_cons, List.cons_append] at hrun
    rw [run_break] at hrun
    · cases hrun
    · by_contra hsome
      obtain ⟨e', he'⟩ := Option.ne_none_iff_exists'.1 hsome
      obtain ⟨data, hseg, hdata⟩ := dataParse_init he'
      cases hseg
      exact hmysql hdata

end

section

variable {segs : List (Side × List UInt8)}

theorem follows_empty {pieces : List (List UInt8)} (hempty : pieces.flatten = [])
    (nums cli : List UInt8)
    (segs : List (Side × List UInt8)) :
    follows nums cli [] (piecesOf .server pieces ++ segs) = follows nums cli [] segs := by
  induction pieces with
  | nil => rfl
  | cons piece pieces ih =>
    rw [List.flatten_cons, List.append_eq_nil_iff] at hempty
    obtain ⟨rfl, hempty⟩ := hempty
    exact ih hempty

theorem sideBytes_pieces (side : Side) (pieces : List (List UInt8)) :
    sideBytes side (piecesOf side pieces ++ segs) = pieces.flatten ++ sideBytes side segs := by
  induction pieces with
  | nil => rfl
  | cons piece pieces ih =>
    rw [piecesOf, List.map_cons, List.cons_append, sideBytes_same, List.flatten_cons,
      List.append_assoc]
    exact congrArg (piece ++ ·) ih

theorem sideBytes_pieces_other {side side' : Side} (h : side' ≠ side) (pieces : List (List UInt8)) :
    sideBytes side (piecesOf side' pieces ++ segs) = sideBytes side segs := by
  induction pieces with
  | nil => rfl
  | cons piece pieces ih =>
    rw [piecesOf, List.map_cons, List.cons_append, sideBytes_other h]
    exact ih

end

theorem LoginCut.run_pieces {x : Login} {c : LoginCut x} {g l r : List UInt8}
    {rs : List (List UInt8)}
    (hg : c.greeting = [g]) (hl : c.login = [l]) (hr : c.answer = r :: rs) (hok : LoginOk r)
    (segs : List (Side × List UInt8)) :
    run .init (c.segs ++ segs) = run (between x.session [] [] []) (piecesOf .server rs ++ segs) ∧
      ∀ side, packetsRead side .init (c.segs ++ segs) =
        packetsRead side (between x.session [] [] []) (piecesOf .server rs ++ segs) := by
  have hgreeting : g = x.greeting := by
    rw [← c.greeting_flatten, hg, List.flatten_singleton]
  have hlogin : l = x.login := by
    rw [← c.login_flatten, hl, List.flatten_singleton]
  have hsegs : c.segs ++ segs =
      (.server, g) :: (.client, l) :: (.server, r) :: (piecesOf .server rs ++ segs) := by
    rw [LoginCut.segs, hg, hl, hr]
    rfl
  have hmysql : Mysql.isMysql g := by
    rw [hgreeting]
    exact x.isMysql
  rw [hsegs, Login.session, ← hgreeting, ← hlogin]
  exact login_run hmysql hok _

/-- The framing holds of a connection exactly when no message of its login is cut and every
response follows. -/
theorem framed_iff (x : Login) (c : LoginCut x) (segs : List (Side × List UInt8)) :
    Framed c segs ↔ c.Whole ∧ follows [] [] [] segs := by
  constructor
  · rintro ⟨entries, hrun, -, hserver⟩
    have hgreeting : c.greeting.flatten ≠ [] := by
      rw [c.greeting_flatten]
      intro hnil
      have hmysql := x.isMysql
      rw [hnil] at hmysql
      cases hmysql
    have hanswer : c.answer.flatten ≠ [] := by
      rw [c.answer_flatten]
      intro hnil
      have hlen := x.isOk.1
      rw [hnil] at hlen
      cases hlen
    obtain ⟨g, l, r, rs, hg, hl, hr, -, hok⟩ := login_pieces hgreeting hanswer hrun
    obtain ⟨hsame, hread⟩ := LoginCut.run_pieces hg hl hr hok segs
    rw [hsame] at hrun
    rw [hread] at hserver
    have hfollows : follows [] [] [] (piecesOf .server rs ++ segs) := by
      by_contra hnot
      rw [commands_break (s := x.session) rfl [] _ hnot] at hrun
      cases hrun
    obtain ⟨entries', hrun', -, hserver'⟩ :=
      commands_run (s := x.session) rfl [] _ rfl rfl hfollows
    -- what the loop took and kept of the answer's later pieces would be missing in the framing
    rw [hrun'] at hrun
    rw [hserver', List.nil_append, sideBytes_pieces] at hserver
    have hleft := congrArg MysqlEntry.dataInputSrv (Option.some.inj hrun)
    simp only [between, List.nil_append, sideBytes_pieces] at hleft
    have hlong := framing_length (rs.flatten ++ sideBytes .server segs)
    rw [hserver, hleft, framing_length, List.length_append] at hlong
    have hempty : rs.flatten = [] := List.length_eq_zero_iff.1 (by omega)
    have hone : r = x.answer := by
      rw [← c.answer_flatten, hr, List.flatten_cons, hempty, List.append_nil]
    rw [follows_empty hempty] at hfollows
    refine ⟨⟨?_, ?_, ?_⟩, hfollows⟩
    · rw [← c.greeting_flatten, hg, List.flatten_singleton]
    · rw [← c.login_flatten, hl, List.flatten_singleton]
    · rw [hr, hone, List.head?_cons]
  · rintro ⟨⟨hg, hl, hr⟩, hfollows⟩
    obtain ⟨rs, hrs⟩ := List.head?_eq_some_iff.1 hr
    obtain ⟨hsame, hread⟩ := LoginCut.run_pieces hg hl hrs x.isOk segs
    have hempty : rs.flatten = [] := by
      have hall := c.answer_flatten
      rw [hrs, List.flatten_cons] at hall
      exact List.append_right_eq_self.1 hall
    rw [← follows_empty hempty] at hfollows
    obtain ⟨entries, hrun, hclient, hserver⟩ :=
      commands_run (s := x.session) rfl [] _ rfl rfl hfollows
    rw [sideBytes_pieces, sideBytes_pieces_other (by decide), hempty, List.nil_append] at hrun
    rw [sideBytes_pieces_other (by decide)] at hclient
    rw [sideBytes_pieces, hempty, List.nil_append] at hserver
    exact ⟨entries, hsame.trans hrun, (hread _).trans hclient, (hread _).trans hserver⟩

def rootGreeting : List UInt8 := [14, 0, 0, 0, 10] ++ bytesOf "5.7.0" ++ [0] ++ bytesOf "mysql_"

def rootAnswer : List UInt8 := [7, 0, 0, 2, 0, 0, 0, 2, 0, 0, 0]

theorem isMysql_rootGreeting : isMysql rootGreeting := by decide

theorem loginOk_rootAnswer : LoginOk rootAnswer := ⟨by decide, by decide, by decide⟩

/-- A login of `root`. -/
def rootLogin : Login where
  greeting := rootGreeting
  login := [38, 0, 0, 1] ++ List.replicate 32 0 ++ bytesOf "root" ++ [0]
  answer := rootAnswer
  isMysql := isMysql_rootGreeting
  isOk := loginOk_rootAnswer

def cutGreeting : LoginCut rootLogin where
  greeting := [rootLogin.greeting.take 11, rootLogin.greeting.drop 11]
  login := [rootLogin.login]
  answer := [rootLogin.answer]
  greeting_flatten := rfl
  login_flatten := rfl
  answer_flatten := rfl

def ping : List (Side × List UInt8) := [(.client, [1, 0, 0, 0, 14]), (.server, [1, 0, 0, 1, 0])]

theorem cutGreeting_not_framed : follows [] [] [] ping ∧ ¬ Framed cutGreeting ping := by
  refine ⟨by decide, ?_⟩
  rintro ⟨entries, hrun, -⟩
  have hbreak : run .init (cutGreeting.segs ++ ping) = none := rfl
  rw [hbreak] at hrun
  cases hrun

end CloudHands.Mysql

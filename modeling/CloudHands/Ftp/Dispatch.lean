import CloudHands.Ftp.Registry
import CloudHands.Pkt.FlowHash

/-!
# The worker of a data connection

`ch_process_interface_put` chooses the worker of a packet by the hash of its addresses and
ports, and a data connection is registered with the worker of its control connection, which has
other ports. The packets of the data connection find it when both hashes choose the same worker.
-/

namespace CloudHands.Ftp

open Lib Http Pkt

/-- The queue that `ch_process_interface_put` chooses. The task with number `i + 1` reads the
queue `i`. -/
def queueIndex (qnumber : ℕ) (hash : UInt32) : ℕ := if 1 < qnumber then hash.toNat % qnumber else 0

/-- The data connection is registered with the worker, for the control connection that has the
addresses of the packet. -/
structure Registered (w : Worker) (control : FlowKey) (d : ℕ) (dcon : DataConnection) : Prop where
  alive : w.dcons.cell d = some dcon
  control : ∃ s, w.controls.cell dcon.ftpSession = some s ∧
    ((s.srcIp = control.srcIp ∧ s.dstIp = control.dstIp) ∨
      (s.srcIp = control.dstIp ∧ s.dstIp = control.srcIp))

/-- The hashes of the two connections leave the same remainder. -/
def HashesMeet (qnumber : ℕ) (control data : FlowKey) : Prop :=
  qnumber ≤ 1 ∨ (pktHash control).toNat % qnumber = (pktHash data).toNat % qnumber

/-- No data connection registered after `d` matches the packet too. -/
def NoneBefore (w : Worker) (pkt : FlowKey) (d : ℕ) : Prop :=
  ∀ d' ∈ w.dconList.takeWhile (· ≠ d), ∀ dcon ∈ w.dcons.cell d', entryIsEqual dcon pkt = false

theorem queueIndex_eq_iff {qnumber : ℕ} {control data : FlowKey} :
    queueIndex qnumber (pktHash data) = queueIndex qnumber (pktHash control) ↔
      HashesMeet qnumber control data := by
  unfold queueIndex HashesMeet
  split_ifs with h
  · rw [or_iff_right (by omega)]
    exact eq_comm
  · exact iff_of_true rfl (.inl (by omega))

theorem find?_eq_some_iff_takeWhile {p : ℕ → Bool} {ds : List ℕ} {d : ℕ} (hmem : d ∈ ds)
    (hd : p d = true) : ds.find? p = some d ↔ ∀ d' ∈ ds.takeWhile (· ≠ d), p d' = false := by
  induction ds with
  | nil => cases hmem
  | cons x ds ih =>
    by_cases hx : x = d
    · subst hx
      simp [hd]
    · have hrest : d ∈ ds := by simpa [Ne.symm hx] using hmem
      have hkeep : (x :: ds).takeWhile (· ≠ d) = x :: ds.takeWhile (· ≠ d) := by simp [hx]
      rw [hkeep, List.forall_mem_cons, List.find?_cons]
      cases hpx : p x with
      | true => simp [hx]
      | false => simpa using ih hrest

theorem firstMatch_eq_some_iff {w : Worker} (h : Linked w) {d : ℕ} {dcon : DataConnection}
    (hdcon : w.dcons.cell d = some dcon) {pkt : FlowKey} (hmatch : entryIsEqual dcon pkt = true) :
    firstMatch w pkt = some d ↔ NoneBefore w pkt d := by
  unfold firstMatch NoneBefore
  rw [find?_eq_some_iff_takeWhile ((h.listed d).2 ⟨dcon, hdcon⟩) (by simpa [hdcon] using hmatch)]
  refine forall₂_congr fun d' hd' => ?_
  cases w.dcons.cell d' with
  | none => simp
  | some dcon' => simp

/-- The packets of a data connection find it with the worker they are dispatched to exactly
when the hashes meet and no later registration matches them. -/
theorem dataConnection_found_iff {qnumber : ℕ} {workers : ℕ → Worker}
    (hreach : ∀ i, ∃ evs, runEvents (.init (i + 1)) evs = some (workers i)) {ipv6 : Bool}
    {p q : Packet}
    {control data : PacketTcp} (hp : TcpFrame ipv6 p control) (hq : TcpFrame ipv6 q data) {d : ℕ}
    {dcon : DataConnection}
    (hregistered : Registered (workers (queueIndex qnumber p.hash)) control.toFlowKey d dcon)
    (hmatch : entryIsEqual dcon data.toFlowKey = true) :
    (queueIndex qnumber q.hash = queueIndex qnumber p.hash ∧
        dataConnectionFind (workers (queueIndex qnumber q.hash)) data.toFlowKey = some (some d)) ↔
      HashesMeet qnumber control.toFlowKey data.toFlowKey ∧
        NoneBefore (workers (queueIndex qnumber p.hash)) data.toFlowKey d := by
  have hqueue : queueIndex qnumber q.hash = queueIndex qnumber p.hash ↔
      HashesMeet qnumber control.toFlowKey data.toFlowKey := by
    rw [hp.hash, hq.hash]
    exact queueIndex_eq_iff
  rw [← hqueue]
  refine and_congr_right fun heq => ?_
  obtain ⟨evs, hevs⟩ := hreach (queueIndex qnumber p.hash)
  have hlinked := (linked_init _).run hevs
  rw [heq, hlinked.find, Option.some.injEq]
  exact firstMatch_eq_some_iff hlinked hregistered.alive hmatch

def announce (port : String) : List Event :=
  [.open 16777226 33554442, .request 0 (bytesOf "PASV"),
    .response 0 (bytesOf ("227 Entering Passive Mode (10,0,0,2,0," ++ port ++ ")."))]

/-- The control connection is with the first of two workers. -/
def announced (port : String) : ℕ → Worker
  | 0 => (runEvents (.init 1) (announce port)).getD (.init 1)
  | i + 1 => .init (i + 2)

theorem announced_reached {port : String} (h : (runEvents (.init 1) (announce port)).isSome = true)
    (i : ℕ) : ∃ evs, runEvents (.init (i + 1)) evs = some (announced port i) := by
  cases i with
  | zero =>
    obtain ⟨w, hw⟩ := Option.isSome_iff_exists.1 h
    exact ⟨announce port, by simp [announced, hw]⟩
  | succ i => exact ⟨[], rfl⟩

/-- The packets of the control connection, and of data connections to the port. -/
def controlFrame : List UInt8 := flowFrame [10, 0, 0, 1] [10, 0, 0, 2] 100 21

def dataFrame (port : UInt8) : List UInt8 := flowFrame [10, 0, 0, 1] [10, 0, 0, 2] 200 port

theorem controlFrame_tcp : TcpFrame true (parsedPacket controlFrame) (initPacket controlFrame) :=
  tcpFrame_of_parse (by decide +kernel) (by decide +kernel) (by decide +kernel)

theorem port31_found :
    queueIndex 2 (parsedPacket (dataFrame 31)).hash =
      queueIndex 2 (parsedPacket controlFrame).hash ∧
      dataConnectionFind (announced "31" (queueIndex 2 (parsedPacket (dataFrame 31)).hash))
        (initPacket (dataFrame 31)).toFlowKey = some (some 0) := by
  have hdata : TcpFrame true (parsedPacket (dataFrame 31)) (initPacket (dataFrame 31)) :=
    tcpFrame_of_parse (by decide +kernel) (by decide +kernel) (by decide +kernel)
  refine (dataConnection_found_iff (announced_reached (by decide +kernel)) controlFrame_tcp hdata
    ⟨(by decide +kernel : _ = some ⟨none, 0, 0, [], 16777226, 33554442, 31⟩), ?_⟩
    (by decide +kernel)).2 ⟨.inr (by decide +kernel), fun d' hd' => ?_⟩
  · have hcontrol : ∃ s ∈ (announced "31" 0).controls.cell 0,
        s.srcIp = 16777226 ∧ s.dstIp = 33554442 := by decide +kernel
    obtain ⟨s, hs, haddr⟩ := hcontrol
    exact ⟨s, hs, .inl haddr⟩
  · have hnone : (announced "31" 0).dconList.takeWhile (· ≠ 0) = [] := by decide +kernel
    rw [show queueIndex 2 (parsedPacket controlFrame).hash = 0 by decide +kernel, hnone] at hd'
    cases hd'

/-- The data connection to port 30 is registered with the first worker, and its packets go to
the second one. -/
theorem port30_not_found :
    (∀ i, ∃ evs, runEvents (.init (i + 1)) evs = some (announced "30" i)) ∧
      TcpFrame true (parsedPacket controlFrame) (initPacket controlFrame) ∧
      TcpFrame true (parsedPacket (dataFrame 30)) (initPacket (dataFrame 30)) ∧
      (∃ dcon, Registered (announced "30" (queueIndex 2 (parsedPacket controlFrame).hash))
          (initPacket controlFrame).toFlowKey 0 dcon ∧
        entryIsEqual dcon (initPacket (dataFrame 30)).toFlowKey = true) ∧
      dataConnectionFind (announced "30" (queueIndex 2 (parsedPacket (dataFrame 30)).hash))
        (initPacket (dataFrame 30)).toFlowKey = some none := by
  refine ⟨announced_reached (by decide +kernel), controlFrame_tcp,
    tcpFrame_of_parse (by decide +kernel) (by decide +kernel) (by decide +kernel), ?_,
    by decide +kernel⟩
  have hcontrol : ∃ s ∈ (announced "30" 0).controls.cell 0,
      s.srcIp = 16777226 ∧ s.dstIp = 33554442 := by decide +kernel
  obtain ⟨s, hs, haddr⟩ := hcontrol
  exact ⟨⟨none, 0, 0, [], 16777226, 33554442, 30⟩, ⟨by decide +kernel, s, hs, .inl haddr⟩,
    by decide +kernel⟩

end CloudHands.Ftp

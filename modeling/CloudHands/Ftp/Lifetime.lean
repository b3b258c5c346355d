import CloudHands.Ftp.Registry

/-!
# The lifetime of FTP data connections

A data connection ends with its TCP session. The control connection leaves its data
connections behind when it closes, a completed transfer writes to the TCP session it has just
freed, and a second TCP session outlives the data connection that the first one ends. In runs
without these three, no stale reference is followed and nothing is left in the pool.
-/

namespace CloudHands.Ftp

open Lib Http Pkt

def completed (s : ControlSession) (line : List UInt8) : Option ℕ :=
  (s.ftpSession.ansAdd (lineStrParse line).1 (lineStrParse line).2).bind fun r =>
    (r.1.getCmd r.2.1).bind fun cmd =>
      if isCmd cmd "PASV" ∨ isCmd cmd "PORT" ∨ r.2.2.code ≠ 226 then none
      else r.1.transferCmd.bind (·.ftpDcon)

def Meets (w : Worker) : Event → Prop
  | .response c line =>
    ∀ s ∈ w.controls.cell c, ∀ d ∈ completed s line, ∀ dcon ∈ w.dcons.cell d, dcon.tsession = none
  | .close c => ∀ d ∈ w.dconList, ∀ dcon ∈ w.dcons.cell d, dcon.ftpSession ≠ c
  | .dataOpen pkt =>
    ∀ d ∈ firstMatch w pkt, ∀ t < w.tsessions.next, ∀ ts ∈ w.tsessions.cell t, ts.app ≠ d
  | _ => True

instance (w : Worker) : (ev : Event) → Decidable (Meets w ev)
  | .open _ _ => isTrue trivial
  | .request _ _ => isTrue trivial
  | .response c line => inferInstanceAs (Decidable (∀ s ∈ w.controls.cell c,
      ∀ d ∈ completed s line, ∀ dcon ∈ w.dcons.cell d, dcon.tsession = none))
  | .close c => inferInstanceAs (Decidable (∀ d ∈ w.dconList, ∀ dcon ∈ w.dcons.cell d,
      dcon.ftpSession ≠ c))
  | .dataOpen pkt => inferInstanceAs (Decidable (∀ d ∈ firstMatch w pkt, ∀ t < w.tsessions.next,
      ∀ ts ∈ w.tsessions.cell t, ts.app ≠ d))
  | .data _ _ _ => isTrue trivial
  | .dataClose _ _ => isTrue trivial
  | .dataTimeout _ => isTrue trivial

def MeetAll (w : Worker) : List Event → Prop
  | [] => True
  | ev :: evs => Meets w ev ∧ ∀ w' ∈ step w ev, MeetAll w' evs

instance decidableMeetAll : (w : Worker) → (evs : List Event) → Decidable (MeetAll w evs)
  | _, [] => isTrue trivial
  | w, ev :: evs =>
    have (w' : Worker) : Decidable (MeetAll w' evs) := decidableMeetAll w' evs
    inferInstanceAs (Decidable (Meets w ev ∧ ∀ w' ∈ step w ev, MeetAll w' evs))

/-- Every data connection there was is in the list or was destroyed, once, and none is in the
list behind its control connection and its TCP sessions. -/
structure Accounted (w : Worker) : Prop where
  linkedOnce : w.dconList.Nodup
  destroyedOnce : ∀ d < w.dcons.next,
    if d ∈ w.dconList then w.dcons.freed.count d = 0 else w.dcons.freed.count d = 1
  notLeft : ∀ d dcon, w.dcons.cell d = some dcon → w.controls.cell dcon.ftpSession = none →
    ∃ t ts, w.tsessions.cell t = some ts ∧ ts.app = d

structure Inv (w : Worker) : Prop extends Linked w where
  hasList : w.taskId < maxThreadNum
  control : ∀ d dcon, w.dcons.cell d = some dcon → ∃ s, w.controls.cell dcon.ftpSession = some s
  cmds : ∀ c s, w.controls.cell c = some s → ∀ cmd ∈ s.ftpSession.cmdList, ∀ d,
    cmd.ftpDcon = some d →
    ∃ dcon, w.dcons.cell d = some dcon ∧ dcon.ftpSession = c ∧ dcon.ftpCmd = cmd.id
  sessions : ∀ t ts, w.tsessions.cell t = some ts →
    ∃ e dcon, ts.sentry = some e ∧ w.dcons.cell ts.app = some dcon ∧ e < dcon.entries.length
  single : ∀ t ts t' ts', w.tsessions.cell t = some ts → w.tsessions.cell t' = some ts' →
    ts.app = ts'.app → t = t'

theorem inv_init {taskId : ℕ} (h : taskId < maxThreadNum) : Inv (.init taskId) where
  toLinked := linked_init taskId
  hasList := h
  control d dcon h := by cases h
  cmds c s h := by cases h
  sessions t ts h := by cases h
  single t ts t' ts' h := by cases h

theorem Inv.accounted {w : Worker} (h : Inv w) : Accounted w where
  linkedOnce := h.nodup
  destroyedOnce := by
    intro d hd
    split
    · rename_i hlisted
      obtain ⟨dcon, hdcon⟩ := (h.listed d).1 hlisted
      refine List.count_eq_zero.2 fun hfreed => ?_
      rw [((w.dcons.mem_freed d).1 hfreed).2] at hdcon
      cases hdcon
    · rename_i hnot
      refine List.count_eq_one_of_mem w.dcons.nodup ((w.dcons.mem_freed d).2 ⟨hd, ?_⟩)
      cases hcell : w.dcons.cell d with
      | none => rfl
      | some dcon => exact absurd ((h.listed d).2 ⟨dcon, hcell⟩) hnot
  notLeft := by
    intro d dcon hdcon hnone
    obtain ⟨s, hs⟩ := h.control d dcon hdcon
    rw [hs] at hnone
    cases hnone

theorem Inv.whenFound {w : Worker} (h : Inv w) (pkt : FlowKey) {f : ℕ → Option Worker}
    (hf : ∀ d dcon, firstMatch w pkt = some d → w.dcons.cell d = some dcon →
      ∃ w', f d = some w' ∧ Inv w') :
    ∃ w', whenFound w pkt f = some w' ∧ Inv w' := by
  rw [Ftp.whenFound, h.toLinked.find pkt]
  cases hfirst : firstMatch w pkt with
  | none => exact ⟨w, rfl, h⟩
  | some d =>
    obtain ⟨dcon, hdcon⟩ := (h.listed d).1 (List.mem_of_find?_eq_some hfirst)
    exact hf d dcon hfirst hdcon

theorem Inv.setControl {w : Worker} (h : Inv w) {c : ℕ} {s : ControlSession}
    (hs : w.controls.cell c = some s) (s' : ControlSession)
    (hsame : SameDcons s.ftpSession s'.ftpSession) :
    ∃ w', w.setControl c s' = some w' ∧ Inv w' ∧ w'.controls.cell c = some s' ∧
      w'.dcons = w.dcons ∧ w'.tsessions = w.tsessions ∧ w'.dconList = w.dconList := by
  obtain ⟨controls, hwrite, hcell, -, -⟩ := Arena.write_eq hs s'
  refine ⟨{ w with controls := controls }, by simp [Worker.setControl, hwrite], ?_, ?_, rfl, rfl,
    rfl⟩
  · refine ⟨h.toLinked.of_eq rfl rfl rfl, h.hasList, ?_, ?_, h.sessions, h.single⟩
    · intro d dcon hdcon
      rw [hcell, Function.update_apply]
      split
      · exact ⟨s', rfl⟩
      · exact h.control d dcon hdcon
    · intro c' s'' hs'' cmd hcmd d hd
      rw [hcell, Function.update_apply] at hs''
      split at hs''
      · rename_i hc
        subst hc
        cases hs''
        obtain ⟨old, hold, hid, hdold⟩ := hsame cmd hcmd d hd
        obtain ⟨dcon, hdcon, hsession, hcmdId⟩ := h.cmds c' s hs old hold d hdold
        exact ⟨dcon, hdcon, hsession, hcmdId.trans hid⟩
      · exact h.cmds c' s'' hs'' cmd hcmd d hd
  · rw [hcell, Function.update_self]

theorem Inv.requestLine {w : Worker} (h : Inv w) {c : ℕ} {s : ControlSession}
    (hs : w.controls.cell c = some s) (line : List UInt8) :
    ∃ w', requestLine w c line = some w' ∧ Inv w' := by
  obtain ⟨w', hw', hinv, -⟩ := h.setControl hs
    { s with ftpSession := s.ftpSession.cmdAdd (lineStrParse line).1 (lineStrParse line).2 }
    (cmdAdd_sameDcons _ _ _)
  exact ⟨w', by simpa [Ftp.requestLine, hs] using hw', hinv⟩

theorem Inv.letGo {w : Worker} (h : Inv w) {c : ℕ} {s : ControlSession}
    (hs : w.controls.cell c = some s) (id : ℕ) :
    ∃ w', w.setFtpDcon c id none = some w' ∧ Inv w' := by
  obtain ⟨w', hw', hinv, -⟩ := h.setControl hs
    { s with ftpSession := s.ftpSession.setFtpDcon id none } (by
      intro cmd hcmd d hd
      exact ⟨cmd, (mem_setFtpDcon_none hcmd hd).1, rfl, hd⟩)
  exact ⟨w', by simpa [Worker.setFtpDcon, hs] using hw', hinv⟩

theorem Inv.create {w : Worker} (h : Inv w) {c : ℕ} {s : ControlSession}
    (hs : w.controls.cell c = some s) (id srcIp dstIp dstPort : ℕ) :
    ∃ w₁ w', dataConnectionCreate w c id srcIp dstIp dstPort = some w₁ ∧
      w₁.setFtpDcon c id (some w.dcons.next) = some w' ∧ Inv w' := by
  let s' : ControlSession := { s with ftpSession := s.ftpSession.setFtpDcon id (some w.dcons.next) }
  let dcon' : DataConnection := ⟨none, c, id, [], srcIp, dstIp, dstPort⟩
  let w₁ : Worker :=
    { w with dcons := w.dcons.alloc dcon', dconList := w.dcons.next :: w.dconList }
  obtain ⟨controls, hwrite, hcell, -, -⟩ := Arena.write_eq hs s'
  have hcreate : dataConnectionCreate w c id srcIp dstIp dstPort = some w₁ :=
    if_neg (not_le.2 h.hasList)
  refine ⟨w₁, { w₁ with controls := controls }, hcreate, ?_, ?_⟩
  · simp [Worker.setFtpDcon, Worker.setControl, w₁, hs, s', hwrite]
  have halive : ∀ c' s₁, w.controls.cell c' = some s₁ → ∃ s₂, controls.cell c' = some s₂ := by
    intro c' s₁ hs₁
    rw [hcell, Function.update_apply]
    split
    · exact ⟨s', rfl⟩
    · exact ⟨s₁, hs₁⟩
  refine ⟨(h.toLinked.create hcreate).of_eq rfl rfl rfl, h.hasList, ?_, ?_, ?_, h.single⟩
  · intro d dcon hdcon
    simp only [w₁, Arena.alloc_cell, Function.update_apply] at hdcon
    split at hdcon
    · cases hdcon
      exact halive c s hs
    · obtain ⟨s₁, hs₁⟩ := h.control d dcon hdcon
      exact halive _ s₁ hs₁
  · intro c' s₁ hs₁ cmd hcmd d hd
    have hold : ∀ {dcon}, w.dcons.cell d = some dcon → w₁.dcons.cell d = some dcon := fun hdcon =>
      Arena.alloc_cell_of_some hdcon _
    change controls.cell c' = some s₁ at hs₁
    rw [hcell, Function.update_apply] at hs₁
    split at hs₁
    · rename_i hc
      subst hc
      cases hs₁
      rcases mem_setFtpDcon_some hcmd hd with ⟨hid, rfl⟩ | ⟨hmem, -⟩
      · exact ⟨dcon', by simp [w₁], rfl, hid.symm⟩
      · obtain ⟨dcon, hdcon, hrest⟩ := h.cmds c' s hs cmd hmem d hd
        exact ⟨dcon, hold hdcon, hrest⟩
    · obtain ⟨dcon, hdcon, hrest⟩ := h.cmds c' s₁ hs₁ cmd hcmd d hd
      exact ⟨dcon, hold hdcon, hrest⟩
  · intro t ts hts
    obtain ⟨e, dcon, he, hdcon, hlt⟩ := h.sessions t ts hts
    exact ⟨e, dcon, he, Arena.alloc_cell_of_some hdcon _, hlt⟩

theorem Inv.processFtpDataConnection {w : Worker} (h : Inv w) {c : ℕ} {s : ControlSession}
    (hs : w.controls.cell c = some s) (cmd : FtpCmd) (ans : FtpAns) (isPasv : Bool) :
    ∃ w', processFtpDataConnection w c s cmd ans isPasv = some w' ∧ Inv w' := by
  have hcreate : ∀ srcIp dstIp dstPort, ∃ w',
      (do
        let w' ← dataConnectionCreate w c cmd.id srcIp dstIp dstPort
        w'.setFtpDcon c cmd.id (some w.dcons.next)) = some w' ∧ Inv w' := by
    intro srcIp dstIp dstPort
    obtain ⟨w₁, w', hw₁, hw', hinv⟩ := h.create hs cmd.id srcIp dstIp dstPort
    exact ⟨w', by simpa [hw₁] using hw', hinv⟩
  unfold Ftp.processFtpDataConnection
  split_ifs with hphrase hdcon hpasv hport
  · exact ⟨w, rfl, h⟩
  · exact ⟨w, rfl, h⟩
  · exact ⟨w, rfl, h⟩
  · exact ⟨w, rfl, h⟩
  · dsimp only
    split_ifs
    · exact ⟨w, rfl, h⟩
    · exact hcreate _ _ _
    · exact hcreate _ _ _

theorem Inv.processFtpDataRwOk {w : Worker} (h : Inv w) {c : ℕ} {s : ControlSession}
    (hs : w.controls.cell c = some s)
    (hidle : ∀ d dcon, s.ftpSession.transferCmd.bind (·.ftpDcon) = some d →
      w.dcons.cell d = some dcon → dcon.tsession = none) :
    ∃ w', processFtpDataRwOk w c s = some w' ∧ Inv w' := by
  unfold Ftp.processFtpDataRwOk
  cases hcmd : s.ftpSession.transferCmd with
  | none => exact ⟨w, rfl, h⟩
  | some cmd =>
    cases hd : cmd.ftpDcon with
    | none => exact ⟨w, by simp [hd], h⟩
    | some d =>
      obtain ⟨dcon, hdcon, -⟩ := h.cmds c s hs cmd (transferCmd_mem hcmd) d hd
      have hnone := hidle d dcon (by simp [hcmd, hd]) hdcon
      have houtput : dataConnectionFinOutput w d = some w := by
        simp [dataConnectionFinOutput, not_le.2 h.hasList, hdcon, hnone]
      obtain ⟨w', hw', hinv⟩ := h.letGo hs cmd.id
      exact ⟨w', by simpa [hd, houtput] using hw', hinv⟩

theorem Inv.responseLine {w : Worker} (h : Inv w) {c : ℕ} {s : ControlSession}
    (hs : w.controls.cell c = some s) {line : List UInt8} (hmeets : Meets w (.response c line)) :
    ∃ w', responseLine w c line = some w' ∧ Inv w' := by
  unfold Ftp.responseLine
  simp only [hs, Option.bind_eq_bind, Option.bind_some]
  cases hans : s.ftpSession.ansAdd (lineStrParse line).1 (lineStrParse line).2 with
  | none => exact ⟨w, rfl, h⟩
  | some r =>
    obtain ⟨ftpSession, id, ans⟩ := r
    obtain ⟨w₁, hw₁, hinv, hs₁, hdcons, -, -⟩ := h.setControl hs
      { s with ftpSession := ftpSession } (ansAdd_sameDcons hans)
    simp only [hw₁, Option.bind_some]
    cases hcmd : ftpSession.getCmd id with
    | none => exact ⟨w₁, rfl, hinv⟩
    | some cmd =>
      simp only [processFtpAns]
      split_ifs with hpasv hport hcode
      · exact hinv.processFtpDataConnection hs₁ cmd ans true
      · exact hinv.processFtpDataConnection hs₁ cmd ans false
      · refine hinv.processFtpDataRwOk hs₁ fun d dcon hd hdcon => ?_
        refine hmeets s hs d ?_ dcon (hdcons ▸ hdcon)
        simpa [completed, hans, hcmd, hpasv, hport, hcode] using hd
      · exact ⟨w₁, rfl, hinv⟩

theorem Inv.controlClose {w : Worker} (h : Inv w) {c : ℕ} {s : ControlSession}
    (hs : w.controls.cell c = some s) (hmeets : Meets w (.close c)) :
    ∃ w', controlClose w c = some w' ∧ Inv w' := by
  obtain ⟨controls, hfree, hcell, -, -⟩ := Arena.free_eq hs
  refine ⟨{ w with controls := controls }, by simp [Ftp.controlClose, hfree],
    h.toLinked.of_eq rfl rfl rfl, h.hasList, ?_, ?_, h.sessions, h.single⟩
  · intro d dcon hdcon
    rw [hcell, Function.update_of_ne (hmeets d ((h.listed d).2 ⟨dcon, hdcon⟩) dcon hdcon)]
    exact h.control d dcon hdcon
  · intro c' s' hs'
    rw [hcell, Function.update_apply] at hs'
    split at hs'
    · cases hs'
    · exact h.cmds c' s' hs'

theorem Inv.setDcon {w : Worker} (h : Inv w) {d : ℕ} {dcon : DataConnection}
    (hdcon : w.dcons.cell d = some dcon) (dcon' : DataConnection)
    (hsession : dcon'.ftpSession = dcon.ftpSession) (hcmd : dcon'.ftpCmd = dcon.ftpCmd)
    (hentries : dcon.entries.length ≤ dcon'.entries.length) :
    ∃ w', w.setDcon d dcon' = some w' ∧ Inv w' ∧ w'.dcons.cell d = some dcon' ∧
      w'.tsessions = w.tsessions := by
  obtain ⟨dcons, hwrite, hcell, -, -⟩ := Arena.write_eq hdcon dcon'
  have hkeep : ∀ d₁ dcon₁, w.dcons.cell d₁ = some dcon₁ → ∃ dcon₂, dcons.cell d₁ = some dcon₂ ∧
      dcon₂.ftpSession = dcon₁.ftpSession ∧ dcon₂.ftpCmd = dcon₁.ftpCmd ∧
      dcon₁.entries.length ≤ dcon₂.entries.length := by
    intro d₁ dcon₁ hdcon₁
    rw [hcell, Function.update_apply]
    split
    · rename_i heq
      rw [heq, hdcon] at hdcon₁
      cases hdcon₁
      exact ⟨dcon', rfl, hsession, hcmd, hentries⟩
    · exact ⟨dcon₁, hdcon₁, rfl, rfl, le_rfl⟩
  have hback : ∀ d₁ dcon₂, dcons.cell d₁ = some dcon₂ → ∃ dcon₁, w.dcons.cell d₁ = some dcon₁ ∧
      dcon₂.ftpSession = dcon₁.ftpSession := by
    intro d₁ dcon₂ hdcon₂
    rw [hcell, Function.update_apply] at hdcon₂
    split at hdcon₂
    · rename_i heq
      cases hdcon₂
      exact ⟨dcon, heq ▸ hdcon, hsession⟩
    · exact ⟨dcon₂, hdcon₂, rfl⟩
  have heq : w.setDcon d dcon' = some { w with dcons := dcons } := by
    simp [Worker.setDcon, hwrite]
  refine ⟨{ w with dcons := dcons }, heq, ⟨h.toLinked.setDcon heq, h.hasList, ?_, ?_, ?_, h.single⟩,
    by rw [hcell, Function.update_self], rfl⟩
  · intro d₁ dcon₂ hdcon₂
    obtain ⟨dcon₁, hdcon₁, heq⟩ := hback d₁ dcon₂ hdcon₂
    rw [heq]
    exact h.control d₁ dcon₁ hdcon₁
  · intro c s hs cmd hmem d₁ hd₁
    obtain ⟨dcon₁, hdcon₁, hc, hid⟩ := h.cmds c s hs cmd hmem d₁ hd₁
    obtain ⟨dcon₂, hdcon₂, hc', hid', -⟩ := hkeep d₁ dcon₁ hdcon₁
    exact ⟨dcon₂, hdcon₂, hc'.trans hc, hid'.trans hid⟩
  · intro t ts hts
    obtain ⟨e, dcon₁, he, hdcon₁, hlt⟩ := h.sessions t ts hts
    obtain ⟨dcon₂, hdcon₂, -, -, hle⟩ := hkeep _ dcon₁ hdcon₁
    exact ⟨e, dcon₂, he, hdcon₂, hlt.trans_le hle⟩

theorem Inv.dataSessionCreate {w : Worker} (h : Inv w) {d : ℕ} {dcon : DataConnection}
    (hdcon : w.dcons.cell d = some dcon)
    (halone : ∀ t ts, w.tsessions.cell t = some ts → ts.app ≠ d) :
    ∃ w', dataSessionCreate w d = some w' ∧ Inv w' := by
  obtain ⟨s, hs⟩ := h.control d dcon hdcon
  obtain ⟨w₁, hw₁, hinv, hdcon₁, hsessions⟩ := h.setDcon hdcon
    { dcon with
      entries :=
        dcon.entries ++ [⟨s.ftpSession.fpathNameSet.1, s.ftpSession.fpathNameSet.2, false⟩] }
    rfl rfl (by simp)
  refine ⟨{ w₁ with tsessions := w₁.tsessions.alloc ⟨d, some dcon.entries.length⟩ },
    by simp [Ftp.dataSessionCreate, hdcon, hs, hw₁], hinv.toLinked.of_eq rfl rfl rfl,
    hinv.hasList, hinv.control,
    hinv.cmds, ?_, ?_⟩
  · intro t ts hts
    simp only [Arena.alloc_cell, Function.update_apply] at hts
    split at hts
    · cases hts
      exact ⟨_, _, rfl, hdcon₁, by simp⟩
    · exact hinv.sessions t ts hts
  · intro t ts t' ts' hts hts' heq
    simp only [Arena.alloc_cell, Function.update_apply, hsessions] at hts hts'
    split at hts <;> split at hts'
    · omega
    · cases hts
      exact absurd heq.symm (halone t' ts' hts')
    · cases hts'
      exact absurd heq (halone t ts hts)
    · exact h.single t ts t' ts' hts hts' heq

theorem Inv.dataSessionClose {w : Worker} (h : Inv w) {t : ℕ} {ts : DataTcpSession}
    (hts : w.tsessions.cell t = some ts) : ∃ w', dataSessionClose w t = some w' ∧ Inv w' := by
  obtain ⟨e, dcon, he, hdcon, hlt⟩ := h.sessions t ts hts
  obtain ⟨s, hs⟩ := h.control _ dcon hdcon
  let s' : ControlSession := { s with ftpSession := s.ftpSession.setFtpDcon dcon.ftpCmd none }
  obtain ⟨controls, hwrite, hcontrols, -, -⟩ := Arena.write_eq hs s'
  obtain ⟨dcons, hfree, hdcons, -, -⟩ := Arena.free_eq hdcon
  obtain ⟨tsessions, hend, htsessions, -, -⟩ := Arena.free_eq hts
  have hclose : Ftp.dataSessionClose w t =
      some ⟨w.taskId, controls, dcons, tsessions, w.dconList.erase ts.app⟩ := by
    simp [Ftp.dataSessionClose, hts, tcpAppSessionEntryClean, he, dataSessionEntryClean, hdcon, hlt,
      Worker.setFtpDcon, hs, Worker.setControl, s', hwrite, dataConnectionFin, not_le.2 h.hasList,
      hfree, hend]
  refine ⟨⟨w.taskId, controls, dcons, tsessions, w.dconList.erase ts.app⟩, hclose, ?_⟩
  have hother : ∀ {d dcon'}, dcons.cell d = some dcon' → d ≠ ts.app ∧
      w.dcons.cell d = some dcon' := by
    intro d dcon' hd
    rw [hdcons, Function.update_apply] at hd
    split at hd
    · cases hd
    · rename_i hne
      exact ⟨hne, hd⟩
  refine ⟨h.toLinked.sessionClose hclose, h.hasList, ?_, ?_, ?_, ?_⟩
  · intro d dcon' hd
    obtain ⟨s₁, hs₁⟩ := h.control d dcon' (hother hd).2
    rw [hcontrols, Function.update_apply]
    split
    · exact ⟨s', rfl⟩
    · exact ⟨s₁, hs₁⟩
  · -- the command of the data connection has let go of it, and no other held it
    intro c s₁ hs₁ cmd hcmd d hd
    rw [hcontrols, Function.update_apply] at hs₁
    have hheld : ∃ dcon', w.dcons.cell d = some dcon' ∧ dcon'.ftpSession = c ∧
        dcon'.ftpCmd = cmd.id ∧ d ≠ ts.app := by
      split at hs₁
      · rename_i hc
        cases hs₁
        obtain ⟨hmem, hne⟩ := mem_setFtpDcon_none hcmd hd
        obtain ⟨dcon', hdcon', hc', hid⟩ := h.cmds _ s hs cmd hmem d hd
        refine ⟨dcon', hdcon', hc'.trans hc.symm, hid, ?_⟩
        rintro rfl
        rw [hdcon] at hdcon'
        cases hdcon'
        exact hne hid.symm
      · rename_i hc
        obtain ⟨dcon', hdcon', hc', hid⟩ := h.cmds c s₁ hs₁ cmd hcmd d hd
        refine ⟨dcon', hdcon', hc', hid, ?_⟩
        rintro rfl
        rw [hdcon] at hdcon'
        cases hdcon'
        exact hc hc'.symm
    obtain ⟨dcon', hdcon', hc', hid, hne⟩ := hheld
    exact ⟨dcon', by rw [hdcons, Function.update_of_ne hne, hdcon'], hc', hid⟩
  · intro t' ts' hts'
    rw [htsessions, Function.update_apply] at hts'
    split at hts'
    · cases hts'
    · rename_i hne
      obtain ⟨e', dcon', he', hdcon', hlt'⟩ := h.sessions t' ts' hts'
      have happ : ts'.app ≠ ts.app := fun heq => hne (h.single t' ts' t ts hts' hts heq)
      exact ⟨e', dcon', he', by rw [hdcons, Function.update_of_ne happ, hdcon'], hlt'⟩
  · intro t₁ ts₁ t₂ ts₂ hts₁ hts₂ heq
    rw [htsessions, Function.update_apply] at hts₁ hts₂
    split at hts₁
    · cases hts₁
    · split at hts₂
      · cases hts₂
      · exact h.single t₁ ts₁ t₂ ts₂ hts₁ hts₂ heq

theorem Inv.dataContent {w : Worker} (h : Inv w) {t : ℕ} {ts : DataTcpSession}
    (hts : w.tsessions.cell t = some ts) (fileOk : Bool) :
    ∃ w', dataContent w t fileOk = some w' ∧ Inv w' := by
  obtain ⟨e, dcon, he, hdcon, hlt⟩ := h.sessions t ts hts
  have hentry : dcon.entries[e]? = some dcon.entries[e] := List.getElem?_eq_getElem hlt
  let dcon₁ : DataConnection := { dcon with tsession := some (dcon.tsession.getD t) }
  obtain ⟨w₁, hw₁, hinv₁, -, hsessions⟩ := h.setDcon hdcon dcon₁ rfl rfl le_rfl
  by_cases hfile : dcon.entries[e].hasFile
  · exact ⟨w₁, by simpa [Ftp.dataContent, hts, hdcon, he, hentry, hfile] using hw₁, hinv₁⟩
  · cases fileOk with
    | true =>
      obtain ⟨w₂, hw₂, hinv₂, -⟩ := h.setDcon hdcon
        { dcon₁ with entries := dcon.entries.set e { dcon.entries[e] with hasFile := true } }
        rfl rfl (by simp)
      exact ⟨w₂, by simpa [Ftp.dataContent, hts, hdcon, he, hentry, hfile] using hw₂, hinv₂⟩
    | false =>
      obtain ⟨w₂, hw₂, hinv₂⟩ := hinv₁.dataSessionClose (hsessions ▸ hts)
      refine ⟨w₂, ?_, hinv₂⟩
      simp only [dcon₁] at hw₁
      simp [Ftp.dataContent, hts, hdcon, he, hentry, hfile, hw₁, hw₂]

theorem Inv.step {w : Worker} (h : Inv w) {ev : Event} (hmeets : Meets w ev) :
    ∃ w', step w ev = some w' ∧ Inv w' := by
  cases ev with
  | «open» srcIp dstIp =>
    refine ⟨_, rfl, h.toLinked.of_eq rfl rfl rfl, h.hasList, ?_, ?_, h.sessions, h.single⟩
    · intro d dcon hdcon
      obtain ⟨s, hs⟩ := h.control d dcon hdcon
      exact ⟨s, Arena.alloc_cell_of_some hs _⟩
    · intro c s hs cmd hcmd d hd
      simp only [Arena.alloc_cell, Function.update_apply] at hs
      split at hs
      · cases hs
        simp [ftpSessionCreate] at hcmd
      · exact h.cmds c s hs cmd hcmd d hd
  | request c line =>
    simp only [Ftp.step]
    cases hs : w.controls.cell c with
    | none => exact ⟨w, rfl, h⟩
    | some s => exact h.requestLine hs line
  | response c line =>
    simp only [Ftp.step]
    cases hs : w.controls.cell c with
    | none => exact ⟨w, rfl, h⟩
    | some s => exact h.responseLine hs hmeets
  | close c =>
    simp only [Ftp.step]
    cases hs : w.controls.cell c with
    | none => exact ⟨w, rfl, h⟩
    | some s => exact h.controlClose hs hmeets
  | dataOpen pkt =>
    exact h.whenFound pkt fun d dcon hfirst hdcon =>
      h.dataSessionCreate hdcon fun t ts hts => hmeets d hfirst t (Arena.lt_next hts) ts hts
  | data t pkt fileOk =>
    simp only [Ftp.step]
    cases hts : w.tsessions.cell t with
    | none => exact ⟨w, rfl, h⟩
    | some ts => exact h.whenFound pkt fun d dcon _ _ => h.dataContent hts fileOk
  | dataClose t pkt =>
    simp only [Ftp.step]
    cases hts : w.tsessions.cell t with
    | none => exact ⟨w, rfl, h⟩
    | some ts => exact h.whenFound pkt fun d dcon _ _ => h.dataSessionClose hts
  | dataTimeout t =>
    simp only [Ftp.step]
    cases hts : w.tsessions.cell t with
    | none => exact ⟨w, rfl, h⟩
    | some ts => exact h.dataSessionClose hts

theorem Inv.run {w : Worker} (h : Inv w) {evs : List Event} (hmeets : MeetAll w evs) :
    ∃ w', runEvents w evs = some w' ∧ Inv w' := by
  induction evs generalizing w with
  | nil => exact ⟨w, rfl, h⟩
  | cons ev evs ih =>
    obtain ⟨w₁, hw₁, hinv⟩ := h.step hmeets.1
    obtain ⟨w', hw', hinv'⟩ := ih hinv (hmeets.2 w₁ hw₁)
    exact ⟨w', by simpa [runEvents, hw₁] using hw', hinv'⟩

/-- A run whose steps meet the condition follows no stale reference, and accounts for every
data connection. -/
theorem dataConnections_accounted {taskId : ℕ} (htask : taskId < maxThreadNum) {evs : List Event}
    (h : MeetAll (.init taskId) evs) :
    ∃ w, runEvents (.init taskId) evs = some w ∧ Accounted w := by
  obtain ⟨w, hw, hinv⟩ := (inv_init htask).run h
  exact ⟨w, hw, hinv.accounted⟩

theorem dataConnectionFinOutput_stale {w : Worker} {d t : ℕ} {dcon : DataConnection}
    {ts : DataTcpSession} (htask : w.taskId < maxThreadNum) (hdcon : w.dcons.cell d = some dcon)
    (hentries : dcon.entries ≠ [])
    (ht : dcon.tsession = some t) (hts : w.tsessions.cell t = some ts)
    (hsentry : ts.sentry.isSome) :
    dataConnectionFinOutput w d = none := by
  obtain ⟨tsessions, hfree, hcell, -, -⟩ := Arena.free_eq hts
  obtain ⟨dcons, hfin, -, -, -⟩ := Arena.free_eq hdcon
  have hlast : dcon.entries.getLast? = some (dcon.entries.getLast hentries) :=
    List.getLast?_eq_some_getLast hentries
  have hgone : tsessions.cell t = none := by rw [hcell, Function.update_self]
  simp [dataConnectionFinOutput, not_le.2 htask, hdcon, hlast, ht, hts, hsentry, hfree,
    dataConnectionFin, hfin, Arena.write_of_none hgone]

theorem dataSessionClose_stale {w : Worker} {t sentry : ℕ} {dcon : DataConnection}
    {ts : DataTcpSession} (hts : w.tsessions.cell t = some ts) (hsentry : ts.sentry = some sentry)
    (hdcon : w.dcons.cell ts.app = some dcon)
    (hgone : w.controls.cell dcon.ftpSession = none) : dataSessionClose w t = none := by
  simp [dataSessionClose, hts, tcpAppSessionEntryClean, hsentry, dataSessionEntryClean, hdcon,
    Worker.setFtpDcon, hgone]

def fileKey : FlowKey := ⟨false, 16777226, 33554442, 0, 0, 40001, 1025⟩

/-- The data connection is announced, and its first data arrives. -/
def transfer : List Event :=
  [.open 16777226 33554442, .request 0 (bytesOf "PASV"),
    .response 0 (bytesOf "227 Entering Passive Mode (10,0,0,2,4,1)."),
    .request 0 (bytesOf "RETR a.txt"), .dataOpen fileKey, .data 0 fileKey true]

theorem transfer_accounted :
    ∃ w, runEvents (.init 1) (transfer ++ [.dataClose 0 fileKey, .response 0 (bytesOf "226 done"),
      .close 0]) = some w ∧ Accounted w :=
  dataConnections_accounted (by decide) (by decide +kernel)

/-- The transfer is reported complete before the data connection closes: the session is written
to after it was freed. -/
theorem early_completion_stale :
    runEvents (.init 1) (transfer ++ [.response 0 (bytesOf "226 done")]) = none := by
  have h :
      (runEvents (.init 1) (transfer ++ [.response 0 (bytesOf "226 done")])).isNone = true := by
    decide +kernel
  simpa using h

end CloudHands.Ftp

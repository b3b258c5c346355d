import CloudHands.Ftp.DataConnection

/-!
# The list of the data connections

Whatever happens to a worker, the list holds its living data connections, each once, and a
packet is found the first one that matches.
-/

namespace CloudHands.Ftp

open Lib Pkt

structure Linked (w : Worker) : Prop where
  nodup : w.dconList.Nodup
  listed : ∀ d, d ∈ w.dconList ↔ ∃ dcon, w.dcons.cell d = some dcon
  task : w.dconList ≠ [] → w.taskId < maxThreadNum

theorem linked_init (taskId : ℕ) : Linked (.init taskId) :=
  ⟨List.nodup_nil, fun d => by simp [Worker.init, Arena.empty], fun h => absurd rfl h⟩

theorem Linked.of_eq {w w' : Worker} (h : Linked w) (htask : w'.taskId = w.taskId)
    (hdcons : w'.dcons = w.dcons) (hlist : w'.dconList = w.dconList) : Linked w' := by
  refine ⟨?_, fun d => ?_, ?_⟩
  · rw [hlist]
    exact h.nodup
  · rw [hlist, hdcons]
    exact h.listed d
  · rw [hlist, htask]
    exact h.task

theorem Linked.setControl {w w' : Worker} (h : Linked w) {c : ℕ} {s : ControlSession}
    (heq : w.setControl c s = some w') : Linked w' := by
  obtain ⟨controls, -, hw'⟩ := Option.bind_eq_some_iff.1 heq
  cases hw'
  exact h.of_eq rfl rfl rfl

theorem Linked.setFtpDcon {w w' : Worker} (h : Linked w) {c id : ℕ} {d : Option ℕ}
    (heq : w.setFtpDcon c id d = some w') : Linked w' := by
  obtain ⟨s, -, hw'⟩ := Option.bind_eq_some_iff.1 heq
  exact h.setControl hw'

theorem Linked.create {w w' : Worker} (h : Linked w) {c id srcIp dstIp dstPort : ℕ}
    (heq : dataConnectionCreate w c id srcIp dstIp dstPort = some w') : Linked w' := by
  unfold dataConnectionCreate at heq
  split_ifs at heq with htask
  cases heq
  refine ⟨List.nodup_cons.2 ⟨fun hmem => ?_, h.nodup⟩, fun d => ?_, fun _ => not_le.1 htask⟩
  · obtain ⟨dcon, hdcon⟩ := (h.listed _).1 hmem
    exact Arena.ne_next hdcon rfl
  · simp only [Arena.alloc_cell, List.mem_cons, Function.update_apply]
    by_cases hd : d = w.dcons.next
    · simp [hd]
    · simpa [hd] using h.listed d

theorem Linked.fin {w w' : Worker} (h : Linked w) {d : ℕ} (heq : dataConnectionFin w d = some w') :
    Linked w' := by
  unfold dataConnectionFin at heq
  split_ifs at heq with htask
  · exact Option.some.inj heq ▸ h
  obtain ⟨dcons, hfree, hw'⟩ := Option.bind_eq_some_iff.1 heq
  cases hw'
  cases hd : w.dcons.cell d with
  | none =>
    rw [Arena.free_of_none hd] at hfree
    cases hfree
  | some dcon =>
    obtain ⟨dcons', hfree', hcell, -, -⟩ := Arena.free_eq hd
    rw [hfree] at hfree'
    cases hfree'
    refine ⟨h.nodup.erase d, fun d' => ?_, fun _ => not_le.1 htask⟩
    rw [h.nodup.mem_erase_iff, h.listed, hcell, Function.update_apply]
    by_cases hne : d' = d
    · simp [hne]
    · simp [hne]

theorem Linked.setDcon {w w' : Worker} (h : Linked w) {d : ℕ} {dcon : DataConnection}
    (heq : w.setDcon d dcon = some w') : Linked w' := by
  obtain ⟨dcons, hwrite, hw'⟩ := Option.bind_eq_some_iff.1 heq
  cases hw'
  cases hd : w.dcons.cell d with
  | none =>
    rw [Arena.write_of_none hd] at hwrite
    cases hwrite
  | some old =>
    obtain ⟨dcons', hwrite', hcell, -, -⟩ := Arena.write_eq hd dcon
    rw [hwrite] at hwrite'
    cases hwrite'
    refine ⟨h.nodup, fun d' => ?_, h.task⟩
    rw [h.listed, hcell, Function.update_apply]
    by_cases hne : d' = d
    · simp [hne, hd]
    · simp [hne]

theorem Linked.finOutput {w w' : Worker} (h : Linked w) {d : ℕ}
    (heq : dataConnectionFinOutput w d = some w') : Linked w' := by
  unfold dataConnectionFinOutput at heq
  split_ifs at heq
  · exact Option.some.inj heq ▸ h
  obtain ⟨dcon, -, hrest⟩ := Option.bind_eq_some_iff.1 heq
  split at hrest
  · obtain ⟨ts, -, hrest⟩ := Option.bind_eq_some_iff.1 hrest
    split at hrest
    · obtain ⟨tsessions, -, hrest⟩ := Option.bind_eq_some_iff.1 hrest
      obtain ⟨w₁, hfin, hrest⟩ := Option.bind_eq_some_iff.1 hrest
      obtain ⟨tsessions', -, hrest⟩ := Option.bind_eq_some_iff.1 hrest
      cases hrest
      have hfreed : Linked { w with tsessions := tsessions } := h.of_eq rfl rfl rfl
      exact (hfreed.fin hfin).of_eq rfl rfl rfl
    · cases hrest
      exact h
  · cases hrest
    exact h

theorem Linked.processAns {w w' : Worker} (h : Linked w) {c : ℕ} {s : ControlSession} {cmd : FtpCmd}
    {ans : FtpAns} (heq : processFtpAns w c s cmd ans = some w') : Linked w' := by
  obtain rfl | ⟨id, srcIp, dstIp, dstPort, w₁, hcreate, hset⟩ | ⟨d, id, w₁, houtput, hset⟩ :=
    processFtpAns_cases heq
  · exact h
  · exact (h.create hcreate).setFtpDcon hset
  · exact (h.finOutput houtput).setFtpDcon hset

theorem Linked.responseLine {w w' : Worker} (h : Linked w) {c : ℕ} {line : List UInt8}
    (heq : responseLine w c line = some w') : Linked w' := by
  obtain ⟨s, -, hrest⟩ := Option.bind_eq_some_iff.1 heq
  dsimp only at hrest
  split at hrest
  · exact Option.some.inj hrest ▸ h
  · obtain ⟨w₁, hset, hrest⟩ := Option.bind_eq_some_iff.1 hrest
    have hw₁ := h.setControl hset
    split at hrest
    · exact Option.some.inj hrest ▸ hw₁
    · exact hw₁.processAns hrest

theorem Linked.sessionClose {w w' : Worker} (h : Linked w) {t : ℕ}
    (heq : dataSessionClose w t = some w') : Linked w' := by
  obtain ⟨ts, -, hrest⟩ := Option.bind_eq_some_iff.1 heq
  obtain ⟨w₁, hclean, hrest⟩ := Option.bind_eq_some_iff.1 hrest
  obtain ⟨tsessions, -, hrest⟩ := Option.bind_eq_some_iff.1 hrest
  cases hrest
  have hw₁ : Linked w₁ := by
    unfold tcpAppSessionEntryClean at hclean
    split at hclean
    · exact Option.some.inj hclean ▸ h
    · obtain ⟨dcon, -, hclean⟩ := Option.bind_eq_some_iff.1 hclean
      obtain ⟨entry, -, hclean⟩ := Option.bind_eq_some_iff.1 hclean
      obtain ⟨w₂, hset, hfin⟩ := Option.bind_eq_some_iff.1 hclean
      exact (h.setFtpDcon hset).fin hfin
  exact hw₁.of_eq rfl rfl rfl

theorem Linked.content {w w' : Worker} (h : Linked w) {t : ℕ} {fileOk : Bool}
    (heq : dataContent w t fileOk = some w') : Linked w' := by
  obtain ⟨ts, -, hrest⟩ := Option.bind_eq_some_iff.1 heq
  obtain ⟨dcon, -, hrest⟩ := Option.bind_eq_some_iff.1 hrest
  split at hrest
  · exact h.sessionClose hrest
  · obtain ⟨entry, -, hrest⟩ := Option.bind_eq_some_iff.1 hrest
    dsimp only at hrest
    split_ifs at hrest
    · exact h.setDcon hrest
    · exact h.setDcon hrest
    · obtain ⟨w₁, hset, hclose⟩ := Option.bind_eq_some_iff.1 hrest
      exact (h.setDcon hset).sessionClose hclose

theorem Linked.found {w w' : Worker} (h : Linked w) {pkt : FlowKey} {f : ℕ → Option Worker}
    (hf : ∀ d w', f d = some w' → Linked w') (heq : whenFound w pkt f = some w') : Linked w' := by
  obtain ⟨r, -, hrest⟩ := Option.bind_eq_some_iff.1 heq
  cases r with
  | none => exact Option.some.inj hrest ▸ h
  | some d => exact hf d w' hrest

theorem Linked.step {w w' : Worker} (h : Linked w) {ev : Event} (heq : step w ev = some w') :
    Linked w' := by
  cases ev with
  | «open» srcIp dstIp =>
    cases heq
    exact h.of_eq rfl rfl rfl
  | request c line =>
    simp only [Ftp.step] at heq
    split_ifs at heq
    · obtain ⟨s, -, hset⟩ := Option.bind_eq_some_iff.1 heq
      exact h.setControl hset
    · exact Option.some.inj heq ▸ h
  | response c line =>
    simp only [Ftp.step] at heq
    split_ifs at heq
    · exact h.responseLine heq
    · exact Option.some.inj heq ▸ h
  | close c =>
    simp only [Ftp.step] at heq
    split_ifs at heq
    · obtain ⟨controls, -, hw'⟩ := Option.bind_eq_some_iff.1 heq
      cases hw'
      exact h.of_eq rfl rfl rfl
    · exact Option.some.inj heq ▸ h
  | dataOpen pkt =>
    refine h.found (fun d w' hcreate => ?_) heq
    obtain ⟨dcon, -, hrest⟩ := Option.bind_eq_some_iff.1 hcreate
    obtain ⟨s, -, hrest⟩ := Option.bind_eq_some_iff.1 hrest
    obtain ⟨w₁, hset, hrest⟩ := Option.bind_eq_some_iff.1 hrest
    cases hrest
    exact (h.setDcon hset).of_eq rfl rfl rfl
  | data t pkt fileOk =>
    simp only [Ftp.step] at heq
    split_ifs at heq
    · exact h.found (fun _ _ hcontent => h.content hcontent) heq
    · exact Option.some.inj heq ▸ h
  | dataClose t pkt =>
    simp only [Ftp.step] at heq
    split_ifs at heq
    · exact h.found (fun _ _ hclose => h.sessionClose hclose) heq
    · exact Option.some.inj heq ▸ h
  | dataTimeout t =>
    simp only [Ftp.step] at heq
    split_ifs at heq
    · exact h.sessionClose heq
    · exact Option.some.inj heq ▸ h

def firstMatch (w : Worker) (pkt : FlowKey) : Option ℕ :=
  w.dconList.find? fun d => (w.dcons.cell d).any (entryIsEqual · pkt)

theorem findFrom_eq {w : Worker} (pkt : FlowKey) {ds : List ℕ}
    (hds : ∀ d ∈ ds, ∃ dcon, w.dcons.cell d = some dcon) :
    findFrom w pkt ds = some (ds.find? fun d => (w.dcons.cell d).any (entryIsEqual · pkt)) := by
  induction ds with
  | nil => rfl
  | cons d ds ih =>
    obtain ⟨⟨dcon, hdcon⟩, hrest⟩ := List.forall_mem_cons.1 hds
    rw [findFrom, hdcon, List.find?_cons, hdcon, ih hrest]
    simp only [Option.any_some, Option.bind_eq_bind, Option.bind_some]
    cases entryIsEqual dcon pkt with
    | true => rfl
    | false => rfl

theorem Linked.find {w : Worker} (h : Linked w) (pkt : FlowKey) :
    dataConnectionFind w pkt = some (firstMatch w pkt) := by
  unfold dataConnectionFind
  split_ifs with htask
  · have hnil : w.dconList = [] := by
      by_contra hne
      exact absurd (h.task hne) (not_lt.2 htask)
    rw [firstMatch, hnil]
    rfl
  · exact findFrom_eq pkt fun d hd => (h.listed d).1 hd

theorem Linked.run {w w' : Worker} (h : Linked w) {evs : List Event}
    (heq : runEvents w evs = some w') : Linked w' := by
  induction evs generalizing w with
  | nil => exact Option.some.inj heq ▸ h
  | cons ev evs ih =>
    obtain ⟨w₁, hstep, hrest⟩ := Option.bind_eq_some_iff.1 heq
    exact ih (h.step hstep) hrest

end CloudHands.Ftp

import CloudHands.Udp.Task

/-!
# Who owns an application session

Every living application session belongs to one linked UDP session or is one of `others`: those
of the pending requests and the one that a function is just handling.
-/

namespace CloudHands.Udp

open CloudHands.Lib
open CloudHands.Table
open CloudHands.Pkt

variable {σ ε : Type*}

def SessionTable.apps (p : SessionTable) : List ℕ := p.linked.map fun e => (p.mem e).appSession

structure SessionsOk (h : SessionHandler σ ε) (others : List ℕ) : Prop where
  linked_nodup : h.udpPool.linked.Nodup
  pool_nodup : h.udpPool.ep.Nodup
  pool : ∀ e ∈ h.udpPool.ep, e ∉ h.udpPool.linked
  ring : ∀ e ∈ h.udpPool.timeoutEntries, e ∈ h.udpPool.linked
  ring_nodup : h.udpPool.timeoutEntries.Nodup
  taken : ∀ e ∈ h.udpPool.taken, e ∈ h.udpPool.linked ∧ e ∉ h.udpPool.timeoutEntries
  owners_nodup : (h.udpPool.apps ++ others).Nodup
  owners : ∀ i, i ∈ h.udpPool.apps ++ others ↔ ∃ s, h.appSessions.cell i = some s
  fin : ∀ i s, h.appSessions.cell i = some s → s.app.hasAppSessionFin = true

def SameApps (h h' : SessionHandler σ ε) : Prop :=
  ∀ i s', h'.appSessions.cell i = some s' → ∃ s, h.appSessions.cell i = some s ∧ s'.app = s.app

theorem SameApps.refl (h : SessionHandler σ ε) : SameApps h h := fun _ s hs => ⟨s, hs, rfl⟩

theorem SameApps.trans {h₁ h₂ h₃ : SessionHandler σ ε} (h : SameApps h₁ h₂) (h' : SameApps h₂ h₃) :
    SameApps h₁ h₃ := by
  intro i s₃ hs₃
  obtain ⟨s₂, hs₂, heq⟩ := h' i s₃ hs₃
  obtain ⟨s₁, hs₁, heq'⟩ := h i s₂ hs₂
  exact ⟨s₁, hs₁, heq.trans heq'⟩

theorem SessionsOk.perm {h : SessionHandler σ ε} {others others' : List ℕ}
    (hok : SessionsOk h others) (hperm : others.Perm others') : SessionsOk h others' :=
  { hok with
    owners_nodup := (hperm.append_left _).nodup_iff.1 hok.owners_nodup
    owners := fun i => ((hperm.append_left _).mem_iff).symm.trans (hok.owners i) }

theorem SessionsOk.congr_mem {h : SessionHandler σ ε} {others : List ℕ} (hok : SessionsOk h others)
    {mem : ℕ → SessionEntry} (hmem : ∀ e, (mem e).appSession = (h.udpPool.mem e).appSession) :
    SessionsOk { h with udpPool := { h.udpPool with mem := mem } } others := by
  have happs : ({ h.udpPool with mem := mem } : SessionTable).apps = h.udpPool.apps :=
    List.map_congr_left fun e _ => hmem e
  exact
    { hok with
      owners_nodup := by
        rw [happs]
        exact hok.owners_nodup
      owners := by
        rw [happs]
        exact hok.owners }

theorem update_appSession (mem : ℕ → SessionEntry) (e : ℕ) {x : SessionEntry}
    (hx : x.appSession = (mem e).appSession) (e' : ℕ) :
    (Function.update mem e x e').appSession = (mem e').appSession := by
  rw [Function.update_apply]
  split
  · rename_i heq
    rw [heq, hx]
  · rfl

theorem SessionsOk.mem_owners {h : SessionHandler σ ε} {others : List ℕ} (hok : SessionsOk h others)
    {i : ℕ} (hi : i ∈ others) : ∃ s, h.appSessions.cell i = some s :=
  (hok.owners i).1 (List.mem_append_right _ hi)

theorem SessionsOk.mem_linked {h : SessionHandler σ ε} {others : List ℕ} (hok : SessionsOk h others)
    {e : ℕ} (he : e ∈ h.udpPool.linked) :
    ∃ s, h.appSessions.cell (h.udpPool.mem e).appSession = some s :=
  (hok.owners _).1 (List.mem_append_left _ (List.mem_map_of_mem he))

theorem SessionsOk.finish {h : SessionHandler σ ε} {i : ℕ} {others : List ℕ}
    (hok : SessionsOk h (i :: others)) :
    ∃ a, appSessionFin h.appSessions i = some a ∧
      SessionsOk { h with appSessions := a } others ∧ SameApps h { h with appSessions := a } := by
  obtain ⟨s, hs⟩ := hok.mem_owners List.mem_cons_self
  obtain ⟨a, hfree, hcell, -, -⟩ := Arena.free_eq hs
  have hnodup : (i :: (h.udpPool.apps ++ others)).Nodup :=
    List.perm_middle.nodup_iff.1 hok.owners_nodup
  obtain ⟨hfresh, hrest⟩ := List.nodup_cons.1 hnodup
  have hsame : SameApps h { h with appSessions := a } := by
    intro j s' hs'
    rw [hcell, Function.update_apply] at hs'
    split at hs'
    · cases hs'
    · exact ⟨s', hs', rfl⟩
  refine ⟨a, by simp [appSessionFin, hs, hok.fin i s hs, hfree], ?_, hsame⟩
  refine { hok with owners_nodup := hrest, owners := fun j => ?_, fin := fun j s' hs' => ?_ }
  · have hj := hok.owners j
    rw [List.perm_middle.mem_iff, List.mem_cons] at hj
    rw [hcell, Function.update_apply]
    split
    · rename_i heq
      subst heq
      simpa using hfresh
    · rename_i hne
      rw [← hj]
      exact (or_iff_right hne).symm
  · obtain ⟨s, hs, heq⟩ := hsame j s' hs'
    rw [heq]
    exact hok.fin j s hs

theorem SessionsOk.write {h : SessionHandler σ ε} {others : List ℕ} (hok : SessionsOk h others)
    {i : ℕ} {s : AppSession σ ε} (hs : h.appSessions.cell i = some s) (data : σ) :
    ∃ a, h.appSessions.write i { s with data := data } = some a ∧
      SessionsOk { h with appSessions := a } others ∧ SameApps h { h with appSessions := a } := by
  obtain ⟨a, hwrite, hcell, -, -⟩ := Arena.write_eq hs { s with data := data }
  have hsame : SameApps h { h with appSessions := a } := by
    intro j s' hs'
    rw [hcell, Function.update_apply] at hs'
    split at hs'
    · rename_i heq
      subst heq
      cases hs'
      exact ⟨s, hs, rfl⟩
    · exact ⟨s', hs', rfl⟩
  refine ⟨a, hwrite, { hok with owners := fun j => ?_, fin := fun j s' hs' => ?_ }, hsame⟩
  · rw [hok.owners j, hcell, Function.update_apply]
    split
    · rename_i heq
      subst heq
      simp [hs]
    · rfl
  · obtain ⟨s, hs, heq⟩ := hsame j s' hs'
    rw [heq]
    exact hok.fin j s hs

theorem SessionsOk.alloc {h : SessionHandler σ ε} {others : List ℕ} (hok : SessionsOk h others)
    {s : AppSession σ ε} (hfin : s.app.hasAppSessionFin = true) :
    SessionsOk { h with appSessions := h.appSessions.alloc s }
      (h.appSessions.next :: others) := by
  have hfresh : h.appSessions.next ∉ h.udpPool.apps ++ others := by
    intro hmem
    obtain ⟨s', hs'⟩ := (hok.owners _).1 hmem
    exact absurd rfl (Arena.ne_next hs')
  refine { hok with owners_nodup := ?_, owners := fun i => ?_, fin := fun i s' hs' => ?_ }
  · exact List.perm_middle.nodup_iff.2 (List.nodup_cons.2 ⟨hfresh, hok.owners_nodup⟩)
  · rw [List.perm_middle.mem_iff, List.mem_cons, hok.owners i, Arena.alloc_cell,
      Function.update_apply]
    split
    · rename_i heq
      simp [heq]
    · rename_i hne
      exact or_iff_right hne
  · rw [Arena.alloc_cell, Function.update_apply] at hs'
    split at hs'
    · cases hs'
      exact hfin
    · exact hok.fin i s' hs'

theorem SessionTable.apps_free {p : SessionTable} {e : ℕ} (he : e ∈ p.linked) :
    p.apps.Perm ((p.mem e).appSession :: (p.free e).apps) :=
  (List.perm_cons_erase he).map _

theorem SessionsOk.free {h : SessionHandler σ ε} {others : List ℕ} (hok : SessionsOk h others)
    {e : ℕ} (he : e ∈ h.udpPool.linked) (hring : e ∉ h.udpPool.timeoutEntries)
    (htaken : e ∉ h.udpPool.taken) :
    SessionsOk { h with udpPool := h.udpPool.free e }
      ((h.udpPool.mem e).appSession :: others) := by
  have hfresh : e ∉ h.udpPool.ep := fun hmem => hok.pool e hmem he
  have howners : ((h.udpPool.free e).apps ++ (h.udpPool.mem e).appSession :: others).Perm
      (h.udpPool.apps ++ others) :=
    List.perm_middle.trans ((SessionTable.apps_free he).symm.append_right others)
  have hkeep : ∀ {e'}, e' ≠ e → e' ∈ h.udpPool.linked → e' ∈ (h.udpPool.free e).linked :=
    fun hne hmem => (List.mem_erase_of_ne hne).2 hmem
  refine
    { hok with
      linked_nodup := hok.linked_nodup.erase e
      pool_nodup := ?_
      pool := ?_
      ring := fun e' he' => hkeep (fun heq => hring (heq ▸ he')) (hok.ring e' he')
      taken := fun e' he' =>
        ⟨hkeep (fun heq => htaken (heq ▸ he')) (hok.taken e' he').1, (hok.taken e' he').2⟩
      owners_nodup := howners.nodup_iff.2 hok.owners_nodup
      owners := fun i => howners.mem_iff.trans (hok.owners i) }
  · refine List.nodup_append.2 ⟨hok.pool_nodup, List.nodup_singleton e, ?_⟩
    rintro e' hmem _ hlast rfl
    exact hfresh (List.mem_singleton.1 hlast ▸ hmem)
  · intro e' hmem hlinked
    obtain ⟨hne, hlinked⟩ := hok.linked_nodup.mem_erase_iff.1 hlinked
    rcases List.mem_append.1 hmem with hmem | hmem
    · exact hok.pool e' hmem hlinked
    · exact hne (List.mem_singleton.1 hmem)

theorem SessionsOk.sessionEnd {h : SessionHandler σ ε} {others : List ℕ} (hok : SessionsOk h others)
    {e : ℕ} (he : e ∈ h.udpPool.linked) (hring : e ∉ h.udpPool.timeoutEntries)
    (htaken : e ∉ h.udpPool.taken) :
    ∃ h', udpSessionEnd h e = some h' ∧ SessionsOk h' others ∧ SameApps h h' := by
  obtain ⟨a, hfin, hok', hsame⟩ := (hok.free he hring htaken).finish
  exact ⟨⟨a, h.udpPool.free e⟩, by rw [udpSessionEnd, hfin]; rfl, hok', hsame⟩

theorem SessionsOk.pktHandle {h : SessionHandler σ ε} {others : List ℕ} (hok : SessionsOk h others)
    {e : ℕ} (he : e ∈ h.udpPool.linked) (htaken : h.udpPool.taken = none) (d : Delivery ε)
    (hends : ∀ s, h.appSessions.cell (h.udpPool.mem e).appSession = some s →
      (s.packetProcess d.arrival.pkt d.env).1 ≠ .continue → e ∉ h.udpPool.timeoutEntries) :
    ∃ h', udpAppPktHandle h e d = some h' ∧ SessionsOk h' others ∧ SameApps h h' := by
  obtain ⟨s, hs⟩ := hok.mem_linked he
  obtain ⟨a, hwrite, hok', hsame⟩ := hok.write hs (s.packetProcess d.arrival.pkt d.env).2
  have hnot : e ∉ h.udpPool.taken := by simp [htaken]
  have hout : udpSessionOut { h with appSessions := a } e ≠ none := by
    obtain ⟨s', hs'⟩ := hok'.mem_linked he
    rw [udpSessionOut, hs']
    exact Option.some_ne_none s'
  obtain ⟨s', hs'⟩ := Option.ne_none_iff_exists'.1 hout
  have heq : udpAppPktHandle h e d =
      udpAppPktEnd { h with appSessions := a } e (s.packetProcess d.arrival.pkt d.env).1 := by
    simp [udpAppPktHandle, hs, hwrite]
  rw [heq]
  cases hrc : (s.packetProcess d.arrival.pkt d.env).1 with
  | «continue» => exact ⟨_, rfl, hok', hsame⟩
  | done =>
    obtain ⟨h', hend, hok'', hsame'⟩ := hok'.sessionEnd he (hends s hs (by simp [hrc])) hnot
    exact ⟨h', by simp [udpAppPktEnd, hs', hend], hok'', hsame.trans hsame'⟩
  | err =>
    obtain ⟨h', hend, hok'', hsame'⟩ := hok'.sessionEnd he (hends s hs (by simp [hrc])) hnot
    exact ⟨h', hend, hok'', hsame.trans hsame'⟩

theorem SessionsOk.packetHandle {h : SessionHandler σ ε} {others : List ℕ}
    (hok : SessionsOk h others) {e : ℕ} (he : e ∈ h.udpPool.linked)
    (htaken : h.udpPool.taken = none) (d : Delivery ε) (isNewCreated : Bool)
    (hends : ∀ s, h.appSessions.cell (h.udpPool.mem e).appSession = some s →
      (s.packetProcess d.arrival.pkt d.env).1 ≠ .continue → e ∉ h.udpPool.timeoutEntries) :
    ∃ h', udpSessionPacketHandle h e d isNewCreated = some h' ∧ SessionsOk h' others ∧
      SameApps h h' := by
  unfold udpSessionPacketHandle
  split
  · exact ⟨h, rfl, hok, .refl h⟩
  · rename_i direct _
    have hsession : ∀ e', ((h.udpPool.update e direct d.arrival).mem e').appSession =
        (h.udpPool.mem e').appSession := update_appSession h.udpPool.mem e rfl
    refine (hok.congr_mem hsession).pktHandle he htaken d fun s hs => ?_
    rw [hsession] at hs
    exact hends s hs

theorem SessionsOk.init {h : SessionHandler σ ε} {i : ℕ} {others : List ℕ}
    (hok : SessionsOk h (i :: others)) {e : ℕ} (he : e ∈ h.udpPool.ep) (d : Delivery ε) (sid : ℕ) :
    SessionsOk { h with udpPool := h.udpPool.init e d i sid } others := by
  have hfresh := hok.pool e he
  have happs : (h.udpPool.init e d i sid).apps = i :: h.udpPool.apps := by
    simp only [SessionTable.apps, SessionTable.init, List.map_cons, Function.update_self]
    congr 1
    refine List.map_congr_left fun e' he' => ?_
    have hne : e' ≠ e := by
      rintro rfl
      exact hfresh he'
    rw [Function.update_of_ne hne]
  have howners : ((h.udpPool.init e d i sid).apps ++ others).Perm
      (h.udpPool.apps ++ i :: others) := by
    rw [happs]
    exact List.perm_middle.symm
  refine
    { hok with
      linked_nodup := List.nodup_cons.2 ⟨hfresh, hok.linked_nodup⟩
      pool_nodup := hok.pool_nodup.erase e
      pool := ?_
      ring := fun e' he' => List.mem_cons_of_mem e (hok.ring e' he')
      taken := fun e' he' => ⟨List.mem_cons_of_mem e (hok.taken e' he').1, (hok.taken e' he').2⟩
      owners_nodup := howners.nodup_iff.2 hok.owners_nodup
      owners := fun j => howners.mem_iff.trans (hok.owners j) }
  intro e' hmem hlinked
  obtain ⟨hne, hmem⟩ := hok.pool_nodup.mem_erase_iff.1 hmem
  rcases List.mem_cons.1 hlinked with rfl | hlinked
  · exact hne rfl
  · exact hok.pool e' hmem hlinked

theorem SessionsOk.createAndProcess {h : SessionHandler σ ε} {i : ℕ} {others : List ℕ}
    (hok : SessionsOk h (i :: others)) (htaken : h.udpPool.taken = none) (sid : ℕ) (d : Delivery ε)
    (hpick : d.sessionPick < h.udpPool.ep.length) :
    ∃ h', createUdpSessionAndProcess h i sid d = some h' ∧ SessionsOk h' others ∧
      SameApps h h' := by
  have he := List.getElem_mem hpick
  have hnot : h.udpPool.ep[d.sessionPick] ∉ h.udpPool.timeoutEntries :=
    fun hring => hok.pool _ he (hok.ring _ hring)
  obtain ⟨h', heq, hok', hsame⟩ := (hok.init he d sid).packetHandle List.mem_cons_self htaken d true
    fun _ _ _ => hnot
  refine ⟨h', ?_, hok', hsame⟩
  rw [createUdpSessionAndProcess, List.getElem?_eq_getElem hpick]
  exact heq

theorem SessionsOk.watch {h : SessionHandler σ ε} {others : List ℕ} (hok : SessionsOk h others)
    (curTime : ℕ) (order : List ℕ)
    (htaken : ∀ e ∈ h.udpPool.taken, e ∈ order → h.udpPool.isIdle curTime e = false) :
    SessionsOk { h with udpPool := h.udpPool.watch curTime order } others := by
  unfold SessionTable.watch
  split
  · refine
      { hok with
        ring := fun e he => ?_
        ring_nodup := (List.nodup_dedup order).filter _
        taken := fun e he => ⟨(hok.taken e he).1, fun hmem => ?_⟩ }
    · have hfilter := (List.mem_filter.1 he).2
      exact (of_decide_eq_true hfilter).1
    · obtain ⟨horder, hidle⟩ := List.mem_filter.1 hmem
      have hnot := htaken e he (List.mem_dedup.1 horder)
      rw [(of_decide_eq_true hidle).2] at hnot
      cases hnot
  · exact hok

theorem SessionsOk.dequeue {h : SessionHandler σ ε} {others : List ℕ} (hok : SessionsOk h others) :
    SessionsOk { h with udpPool := h.udpPool.dequeue } others := by
  unfold SessionTable.dequeue
  split
  · exact hok
  · rename_i e ring hring
    have hmem : ∀ e', e' ∈ h.udpPool.timeoutEntries ↔ e' ∈ e :: ring := fun e' => by rw [hring]
    obtain ⟨hfirst, hnodup⟩ := List.nodup_cons.1 (hring ▸ hok.ring_nodup)
    refine
      { hok with
        ring := fun e' he' => hok.ring e' ((hmem e').2 (List.mem_cons_of_mem e he'))
        ring_nodup := hnodup
        taken := fun e' he' => ?_ }
    obtain rfl := Option.mem_some_iff.1 he'
    exact ⟨hok.ring e ((hmem e).2 List.mem_cons_self), hfirst⟩

theorem SessionsOk.timeout {h : SessionHandler σ ε} {others : List ℕ} (hok : SessionsOk h others)
    {e : ℕ} (he : h.udpPool.taken = some e) :
    ∃ h', udpSessionTimeout h e = some h' ∧ SessionsOk h' others ∧ SameApps h h' := by
  obtain ⟨hlinked, hring⟩ := hok.taken e he
  have hok' : SessionsOk { h with udpPool := { h.udpPool with taken := none } } others :=
    { hok with taken := fun _ h => nomatch h }
  obtain ⟨s, hs⟩ := hok.mem_linked hlinked
  obtain ⟨h', heq, hok'', hsame⟩ := hok'.sessionEnd hlinked hring (fun h => nomatch h)
  exact ⟨h', by simp [udpSessionTimeout, udpSessionOut, hs, heq], hok'', hsame⟩

end CloudHands.Udp

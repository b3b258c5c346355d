import CloudHands.Udp.Ownership

/-!
# The lifetime of application sessions

An application session goes from a pending request to a UDP session and ends with it, or with the
timeout of the request. It is lost when the object that should own it next cannot be had, or when
the application refuses the request; and a UDP session that ends while it waits in the timeout
ring ends its application session twice. In runs without these, every application session there
was is owned once or has been finalised once.
-/

namespace CloudHands.Udp

open CloudHands.Lib
open CloudHands.Table
open CloudHands.Pkt

variable {σ ε : Type*}

def SessionMeets (h : SessionHandler σ ε) (e : ℕ) (d : Delivery ε) : Prop :=
  ∀ s ∈ h.appSessions.cell (h.udpPool.mem e).appSession,
    (s.packetProcess d.arrival.pkt d.env).1 ≠ .continue → e ∉ h.udpPool.timeoutEntries

def RequestMeets (w : RequestHandler σ ε) (r : ℕ) (d : Delivery ε) : Prop :=
  ∀ s ∈ w.shandler.appSessions.cell (w.reqPool.mem r).app,
    ∀ a ∈ s.requestProcess d.arrival.pkt d.env,
      a.1 = .continue ∨ (a.1 = .done ∧ d.sessionPick < w.shandler.udpPool.ep.length)

def NewMeets (w : RequestHandler σ ε) (d : Delivery ε) : Prop :=
  ∀ s ∈ appSessionCreate w.appPool d.arrival.pkt d.env,
    if s.app.processRequestSession.isSome then w.reqPool.HasRoom d.requestPick d.requestRetry d.now
    else d.sessionPick < w.shandler.udpPool.ep.length

def RequestHandler.requestOf (w : RequestHandler σ ε) (d : Delivery ε) : Option ℕ :=
  (plistEntryFind (requestEntryEqual w.shandler d.arrival.pkt) w.reqPool d.now).bind (·.1)

def RequestHandler.sessionOf (w : RequestHandler σ ε) (d : Delivery ε) : Option ℕ :=
  (w.shandler.udpPool.find d.arrival.pkt d.found d.now).1

def PacketMeets (w : RequestHandler σ ε) (d : Delivery ε) : Prop :=
  match w.sessionOf d with
  | some e => SessionMeets w.shandler e d
  | none =>
    match w.requestOf d with
    | some r => RequestMeets w r d
    | none => NewMeets w d

def Meets (w : RequestHandler σ ε) : TaskEvent ε → Prop
  | .packet d => w.shandler.udpPool.taken = none → PacketMeets w d
  | .watch curTime order =>
    ∀ e ∈ w.shandler.udpPool.taken, e ∈ order → w.shandler.udpPool.isIdle curTime e = false
  | _ => True

def MeetAll (w : RequestHandler σ ε) : List (TaskEvent ε) → Prop
  | [] => True
  | ev :: evs => Meets w ev ∧ ∀ w' ∈ taskStep w ev, MeetAll w' evs

instance (w : RequestHandler σ ε) (d : Delivery ε) : Decidable (PacketMeets w d) :=
  match hsession : w.sessionOf d, hrequest : w.requestOf d with
  | some e, _ =>
    decidable_of_iff (∀ s ∈ w.shandler.appSessions.cell (w.shandler.udpPool.mem e).appSession,
      (s.packetProcess d.arrival.pkt d.env).1 ≠ .continue → e ∉ w.shandler.udpPool.timeoutEntries)
      (by simp only [PacketMeets, hsession, SessionMeets])
  | none, some r =>
    decidable_of_iff (∀ s ∈ w.shandler.appSessions.cell (w.reqPool.mem r).app,
      ∀ a ∈ s.requestProcess d.arrival.pkt d.env,
        a.1 = .continue ∨ (a.1 = .done ∧ d.sessionPick < w.shandler.udpPool.ep.length))
      (by simp only [PacketMeets, hsession, hrequest, RequestMeets])
  | none, none =>
    decidable_of_iff (∀ s ∈ appSessionCreate w.appPool d.arrival.pkt d.env,
      if s.app.processRequestSession.isSome then
        w.reqPool.HasRoom d.requestPick d.requestRetry d.now
      else d.sessionPick < w.shandler.udpPool.ep.length)
      (by simp only [PacketMeets, hsession, hrequest, NewMeets])

instance (w : RequestHandler σ ε) : (ev : TaskEvent ε) → Decidable (Meets w ev)
  | .packet d => inferInstanceAs (Decidable (w.shandler.udpPool.taken = none → PacketMeets w d))
  | .requestTimeouts _ => isTrue trivial
  | .watch curTime order =>
    inferInstanceAs (Decidable (∀ e ∈ w.shandler.udpPool.taken, e ∈ order →
      w.shandler.udpPool.isIdle curTime e = false))
  | .dequeue => isTrue trivial
  | .sessionTimeout => isTrue trivial

instance decidableMeetAll : (w : RequestHandler σ ε) → (evs : List (TaskEvent ε)) →
    Decidable (MeetAll w evs)
  | _, [] => isTrue trivial
  | w, ev :: evs =>
    have (w' : RequestHandler σ ε) : Decidable (MeetAll w' evs) := decidableMeetAll w' evs
    inferInstanceAs (Decidable (Meets w ev ∧ ∀ w' ∈ taskStep w ev, MeetAll w' evs))

def RequestHandler.owned (w : RequestHandler σ ε) : List ℕ :=
  w.shandler.udpPool.apps ++ w.reqPool.apps

/-- Every application session there was has one owner, or was finalised once. -/
structure Accounted (w : RequestHandler σ ε) : Prop where
  ownedOnce : w.owned.Nodup
  finalisedOnce : ∀ i < w.shandler.appSessions.next,
    w.shandler.appSessions.freed.count i = if i ∈ w.owned then 0 else 1

structure Inv (w : RequestHandler σ ε) : Prop where
  sessions : SessionsOk w.shandler w.reqPool.apps
  requests : w.reqPool.Ok
  callbacks : ∀ i ∈ w.reqPool.apps, ∀ s, w.shandler.appSessions.cell i = some s →
    s.app.processRequestSession.isSome = true
  apps : ∀ app ∈ w.appPool, app.hasAppSessionFin = true

theorem inv_create (c : TaskConfig σ ε) (hfin : ∀ app ∈ c.appPool, app.hasAppSessionFin = true) :
    Inv c.create where
  sessions :=
    { linked_nodup := List.nodup_nil
      pool_nodup := c.sessions_nodup
      pool := fun _ _ => List.not_mem_nil
      ring := fun _ h => nomatch h
      ring_nodup := List.nodup_nil
      taken := fun _ h => nomatch h
      owners_nodup := List.nodup_nil
      owners := fun i => by
        simp [TaskConfig.create, SessionTable.apps, Plist.apps, plistCreate, Arena.empty]
      fin := fun _ _ h => nomatch h }
  requests := plistCreate_ok c.requests_nodup c.requestMem c.requestTimeout c.startTime
  callbacks _ h := nomatch h
  apps := hfin

theorem Inv.accounted {w : RequestHandler σ ε} (h : Inv w) : Accounted w where
  ownedOnce := h.sessions.owners_nodup
  finalisedOnce := by
    intro i hi
    have howned := h.sessions.owners i
    split
    · rename_i hmem
      obtain ⟨s, hs⟩ := howned.1 hmem
      refine List.count_eq_zero.2 fun hfreed => ?_
      rw [((w.shandler.appSessions.mem_freed i).1 hfreed).2] at hs
      cases hs
    · rename_i hnot
      refine List.count_eq_one_of_mem w.shandler.appSessions.nodup
        ((w.shandler.appSessions.mem_freed i).2 ⟨hi, ?_⟩)
      cases hcell : w.shandler.appSessions.cell i with
      | none => rfl
      | some s => exact absurd (howned.2 ⟨s, hcell⟩) hnot

structure RequestsOk (l : Plist ℕ) (h : SessionHandler σ ε) (others : List ℕ) : Prop where
  sessions : SessionsOk h (l.apps ++ others)
  requests : l.Ok
  callbacks : ∀ i ∈ l.apps, ∀ s, h.appSessions.cell i = some s →
    s.app.processRequestSession.isSome = true

theorem callbacks_of_sameApps {l : Plist ℕ} {h h' : SessionHandler σ ε} (hsame : SameApps h h')
    {is : List ℕ} (his : ∀ i ∈ is, i ∈ l.apps)
    (hcallbacks : ∀ i ∈ l.apps, ∀ s, h.appSessions.cell i = some s →
      s.app.processRequestSession.isSome = true) :
    ∀ i ∈ is, ∀ s, h'.appSessions.cell i = some s → s.app.processRequestSession.isSome = true := by
  intro i hi s' hs'
  obtain ⟨s, hs, heq⟩ := hsame i s' hs'
  rw [heq]
  exact hcallbacks i (his i hi) s hs

theorem RequestsOk.timeout {l : Plist ℕ} {h : SessionHandler σ ε} {others : List ℕ}
    (hok : RequestsOk l h others) {entry : ℕ} (he : entry ∈ l.entries) :
    ∃ h', requestTimeoutCb (l.mem entry).app h = some h' ∧
      (h'.udpPool = h.udpPool ∧ SameApps h h') ∧ RequestsOk (l.free entry) h' others := by
  have hperm := Plist.apps_free he
  obtain ⟨a, hfin, hok', hsame⟩ := (hok.sessions.perm (hperm.append_right others)).finish
  refine ⟨{ h with appSessions := a }, by rw [requestTimeoutCb, hfin]; rfl, ⟨rfl, hsame⟩, hok',
    hok.requests.free he, ?_⟩
  exact callbacks_of_sameApps hsame
    (fun i hi => hperm.mem_iff.2 (List.mem_cons_of_mem _ hi)) hok.callbacks

/-- The state of the loops that free idle requests, reached from `h`. -/
def FreedFrom (h : SessionHandler σ ε) (others : List ℕ) (l : Plist ℕ) (h' : SessionHandler σ ε) :
    Prop :=
  (h'.udpPool = h.udpPool ∧ SameApps h h') ∧ RequestsOk l h' others

theorem FreedFrom.free {h : SessionHandler σ ε} {others : List ℕ} (l : Plist ℕ)
    (h' : SessionHandler σ ε) (entry : ℕ) (hfreed : FreedFrom h others l h')
    (he : entry ∈ l.entries) :
    ∃ h'', requestTimeoutCb (l.mem entry).app h' = some h'' ∧
      FreedFrom h others (l.free entry) h'' := by
  obtain ⟨h'', hcb, ⟨hpool, hsame⟩, hok⟩ := hfreed.2.timeout he
  exact ⟨h'', hcb, ⟨hpool.trans hfreed.1.1, hfreed.1.2.trans hsame⟩, hok⟩

theorem Inv.requestsOk {w : RequestHandler σ ε} (h : Inv w) :
    RequestsOk w.reqPool w.shandler [] :=
  ⟨by simpa using h.sessions, h.requests, h.callbacks⟩

theorem RequestsOk.inv {w : RequestHandler σ ε} {l : Plist ℕ} {h : SessionHandler σ ε}
    (hok : RequestsOk l h []) (hw : Inv w) : Inv { w with shandler := h, reqPool := l } :=
  ⟨by simpa using hok.sessions, hok.requests, hok.callbacks, hw.apps⟩

theorem Inv.requestTimeouts {w : RequestHandler σ ε} (h : Inv w) (curTime : ℕ) :
    ∃ r, plistEntriesTimeoutFree requestTimeoutCb w.reqPool w.shandler curTime = some r ∧
      Inv { w with shandler := r.2, reqPool := r.1 } := by
  unfold plistEntriesTimeoutFree
  split
  · exact ⟨_, rfl, h⟩
  split
  · exact ⟨_, rfl, h⟩
  · have hok := h.requestsOk
    have hstart : FreedFrom w.shandler [] { w.reqPool with lastCleanTime := curTime } w.shandler :=
      ⟨⟨rfl, .refl _⟩, hok.sessions,
        ⟨hok.requests.nodup, hok.requests.pool_nodup, hok.requests.pool, hok.requests.last⟩,
        hok.callbacks⟩
    obtain ⟨l, h', heq, hfreed, -⟩ := plistFreeIdle_rule
      (l := { w.reqPool with lastCleanTime := curTime }) FreedFrom.free curTime w.reqPool.entries
      h.requests.nodup (fun _ he => he) hstart
    exact ⟨(l, h'), heq, hfreed.2.inv h⟩

theorem Inv.sessionPacket {w : RequestHandler σ ε} (h : Inv w)
    (htaken : w.shandler.udpPool.taken = none) {p : SessionTable} {e : ℕ} {d : Delivery ε}
    (hfind : w.shandler.udpPool.find d.arrival.pkt d.found d.now = (some e, p))
    (hmeets : SessionMeets w.shandler e d) :
    ∃ h', udpSessionPacketHandle { w.shandler with udpPool := p } e d false = some h' ∧
      Inv { w with shandler := h' } := by
  unfold SessionTable.find at hfind
  split at hfind
  · cases hfind
  · rename_i e' he'
    cases hfind
    have hlinked : e ∈ w.shandler.udpPool.linked :=
      List.mem_of_mem_filter (List.mem_of_getElem? he')
    have hsession := update_appSession w.shandler.udpPool.mem e
      (x := { w.shandler.udpPool.mem e with lastTime := d.now }) rfl
    obtain ⟨h', heq, hok', hsame⟩ := (h.sessions.congr_mem hsession).packetHandle hlinked htaken d
      false fun s hs => by
        rw [hsession] at hs
        exact hmeets s hs
    exact ⟨h', heq, hok', h.requests, callbacks_of_sameApps hsame (fun _ hi => hi) h.callbacks,
      h.apps⟩

theorem Inv.touch {w : RequestHandler σ ε} (h : Inv w) {r : ℕ} (hr : r ∈ w.reqPool.entries)
    (now : ℕ) : Inv { w with reqPool := w.reqPool.touch r now } := by
  have hperm := Plist.apps_touch hr now
  exact ⟨h.sessions.perm hperm.symm, h.requests.touch hr now,
    fun i hi => h.callbacks i (hperm.mem_iff.1 hi), h.apps⟩

theorem Inv.pendingRequest {w : RequestHandler σ ε} (h : Inv w)
    (htaken : w.shandler.udpPool.taken = none) {r : ℕ} (hr : r ∈ w.reqPool.entries) {d : Delivery ε}
    (hmeets : RequestMeets w r d) : ∃ w', pendingRequest w r d = some w' ∧ Inv w' := by
  have happ : (w.reqPool.mem r).app ∈ w.reqPool.apps := List.mem_map_of_mem hr
  obtain ⟨s, hs⟩ := h.sessions.mem_owners happ
  obtain ⟨process, hprocess⟩ := Option.isSome_iff_exists.1 (h.callbacks _ happ s hs)
  have hanswer :
      s.requestProcess d.arrival.pkt d.env = some (process s.data d.arrival.pkt d.env) := by
    rw [AppSession.requestProcess, hprocess]
    rfl
  obtain ⟨a, hwrite, hok, hsame⟩ :=
    h.sessions.write hs (process s.data d.arrival.pkt d.env).2
  have hcallbacks := callbacks_of_sameApps hsame (fun _ hi => hi) h.callbacks
  have hrequest : udpRequestProcess w.shandler (w.reqPool.mem r).app d =
      some ((process s.data d.arrival.pkt d.env).1, { w.shandler with appSessions := a }) := by
    simp [udpRequestProcess, hs, hanswer, hwrite]
  rw [Udp.pendingRequest, hrequest]
  rcases hmeets s hs _ hanswer with hrc | ⟨hrc, hpick⟩
  · rw [hrc]
    exact ⟨_, rfl, hok, h.requests, hcallbacks, h.apps⟩
  · have hperm := Plist.apps_free hr
    obtain ⟨h', heq, hok', hsame'⟩ := (hok.perm hperm).createAndProcess htaken (sidOf w.nextSid) d
      hpick
    rw [hrc]
    refine ⟨{ w with shandler := h', reqPool := w.reqPool.free r, curSessionId := w.nextSid },
      by simp [heq], hok', h.requests.free hr, ?_, h.apps⟩
    exact callbacks_of_sameApps hsame' (fun i hi => hperm.mem_iff.2 (List.mem_cons_of_mem _ hi))
      hcallbacks

theorem Inv.newAppSession {w : RequestHandler σ ε} (h : Inv w)
    (htaken : w.shandler.udpPool.taken = none) {s : AppSession σ ε} {d : Delivery ε}
    (hs : appSessionCreate w.appPool d.arrival.pkt d.env = some s) (hmeets : NewMeets w d) :
    ∃ w', newAppSession w s d = some w' ∧ Inv w' := by
  have halloc := h.sessions.alloc (h.apps s.app (app_mem_of_create hs))
  have hcallbacks : ∀ i ∈ w.reqPool.apps, ∀ s',
      (w.shandler.appSessions.alloc s).cell i = some s' →
      s'.app.processRequestSession.isSome = true := by
    intro i hi s' hs'
    obtain ⟨s'', hs''⟩ := h.sessions.mem_owners hi
    rw [Arena.alloc_cell_of_some hs''] at hs'
    exact h.callbacks i hi s' (Option.some.inj hs' ▸ hs'')
  have hroom := hmeets s hs
  unfold Udp.newAppSession
  dsimp only
  split
  · rename_i hprocess
    rw [if_pos hprocess] at hroom
    have hstart : FreedFrom { w.shandler with appSessions := w.shandler.appSessions.alloc s }
        [w.shandler.appSessions.next] w.reqPool
        { w.shandler with appSessions := w.shandler.appSessions.alloc s } :=
      ⟨⟨rfl, .refl _⟩, halloc.perm (List.perm_append_singleton _ _).symm, h.requests, hcallbacks⟩
    obtain ⟨entry, l, h', heq, hfreed, hentry⟩ :=
      plistEntryCreate_rule (fun _ _ hP => hP.2.requests) FreedFrom.free hstart hroom
    rw [heq]
    obtain ⟨⟨-, hsame⟩, hok⟩ := hfreed
    have happs := Plist.apps_link_setApp hok.requests hentry d.now w.shandler.appSessions.next
    refine ⟨_, rfl, ?_, (hok.requests.link hentry d.now).setApp entry _, ?_, h.apps⟩
    · refine hok.sessions.perm ?_
      rw [happs]
      exact List.perm_append_singleton _ _
    · intro i hi s' hs'
      rcases List.mem_cons.1 (happs ▸ hi) with rfl | hi
      · obtain ⟨s'', hs'', hsameApp⟩ := hsame _ s' hs'
        rw [Arena.alloc_cell, Function.update_self] at hs''
        cases hs''
        rw [hsameApp]
        exact hprocess
      · exact hok.callbacks i hi s' hs'
  · rename_i hprocess
    rw [if_neg hprocess] at hroom
    obtain ⟨h', heq, hok', hsame⟩ := halloc.createAndProcess htaken (sidOf w.nextSid) d hroom
    refine ⟨{ w with shandler := h', curSessionId := w.nextSid }, by simp [heq], hok', h.requests,
      ?_,
      h.apps⟩
    exact callbacks_of_sameApps hsame (fun _ hi => hi) hcallbacks

theorem Inv.requestPacket {w : RequestHandler σ ε} (h : Inv w)
    (htaken : w.shandler.udpPool.taken = none) {d : Delivery ε} (hmeets : PacketMeets w d) :
    ∃ w', requestPacketHandle w d = some w' ∧ Inv w' := by
  unfold PacketMeets RequestHandler.sessionOf at hmeets
  unfold requestPacketHandle
  cases hfind : w.shandler.udpPool.find d.arrival.pkt d.found d.now with
  | mk found p =>
    rw [hfind] at hmeets
    cases found with
    | some e =>
      obtain ⟨h', heq, hinv⟩ := h.sessionPacket htaken hfind hmeets
      exact ⟨_, by simp [heq], hinv⟩
    | none =>
      have hequal : ∀ i ∈ w.reqPool.apps,
          ∃ eq, requestEntryEqual w.shandler d.arrival.pkt i = some eq := by
        intro i hi
        obtain ⟨s, hs⟩ := h.sessions.mem_owners hi
        exact ⟨_, by rw [requestEntryEqual, hs]; rfl⟩
      have hsearch := plistEntryFind_rule h.requests d.now hequal
      unfold RequestHandler.requestOf at hmeets
      unfold requestHandle
      rcases hsearch with hnone | ⟨r, hr, hsome⟩
      · rw [hnone] at hmeets ⊢
        dsimp only
        cases hcreate : appSessionCreate w.appPool d.arrival.pkt d.env with
        | none => exact ⟨w, rfl, h⟩
        | some s => exact h.newAppSession htaken hcreate hmeets
      · rw [hsome] at hmeets ⊢
        have hr' : r ∈ (w.reqPool.touch r d.now).entries := List.mem_cons_self
        have happ := update_lastTime_app w.reqPool.mem r d.now r
        refine (h.touch hr d.now).pendingRequest htaken hr' ?_
        intro s hs
        simp only [Plist.touch] at hs
        rw [happ] at hs
        exact hmeets s hs

theorem Inv.step {w : RequestHandler σ ε} (h : Inv w) {ev : TaskEvent ε} (hmeets : Meets w ev) :
    ∃ w', taskStep w ev = some w' ∧ Inv w' := by
  cases ev with
  | packet d =>
    simp only [taskStep]
    split
    · exact ⟨w, rfl, h⟩
    · rename_i htaken
      have hnone : w.shandler.udpPool.taken = none := by simpa using htaken
      exact h.requestPacket hnone (hmeets hnone)
  | requestTimeouts curTime =>
    simp only [taskStep]
    split
    · exact ⟨w, rfl, h⟩
    · obtain ⟨r, heq, hinv⟩ := h.requestTimeouts curTime
      exact ⟨_, by rw [heq]; rfl, hinv⟩
  | watch curTime order =>
    exact ⟨_, rfl, h.sessions.watch curTime order hmeets, h.requests, h.callbacks, h.apps⟩
  | dequeue =>
    simp only [taskStep]
    split
    · exact ⟨w, rfl, h⟩
    · exact ⟨_, rfl, h.sessions.dequeue, h.requests, h.callbacks, h.apps⟩
  | sessionTimeout =>
    simp only [taskStep]
    split
    · exact ⟨w, rfl, h⟩
    · rename_i e he
      obtain ⟨h', heq, hok', hsame⟩ := h.sessions.timeout he
      exact ⟨{ w with shandler := h' }, by rw [heq]; rfl, hok', h.requests,
        callbacks_of_sameApps hsame (fun _ hi => hi) h.callbacks, h.apps⟩

theorem Inv.run {w : RequestHandler σ ε} (h : Inv w) {evs : List (TaskEvent ε)}
    (hmeets : MeetAll w evs) : ∃ w', runTask w evs = some w' ∧ Inv w' := by
  induction evs generalizing w with
  | nil => exact ⟨w, rfl, h⟩
  | cons ev evs ih =>
    obtain ⟨hfirst, hrest⟩ := hmeets
    obtain ⟨w', hstep, hinv⟩ := h.step hfirst
    obtain ⟨w'', hrun, hinv'⟩ := ih hinv (hrest w' hstep)
    exact ⟨w'', by rw [runTask, hstep]; exact hrun, hinv'⟩

/-- In a run whose steps meet the condition, no application session is used after its end and
every one has one owner or was finalised once. -/
theorem appSessions_accounted (c : TaskConfig σ ε)
    (hfin : ∀ app ∈ c.appPool, app.hasAppSessionFin = true) {evs : List (TaskEvent ε)}
    (hmeets : MeetAll c.create evs) : ∃ w, runTask c.create evs = some w ∧ Accounted w := by
  obtain ⟨w, hrun, hinv⟩ := (inv_create c hfin).run hmeets
  exact ⟨w, hrun, hinv.accounted⟩

def blankEntry : SessionEntry := ⟨⟨false, 0, 0, 0, 0, 0, 0⟩, endpointTalliesInit
  ⟨⟨⟨0, 0, 0, none⟩, ⟨false, 0, 0, 0, 0, 0, 0⟩⟩, 0⟩, 0, 0, 0⟩

def tftpTask : TaskConfig TftpSession TftpEnv where
  appPool := [tftpApp]
  sessionMem _ := blankEntry
  sessions := [0]
  sessionTimeout := 60
  requestMem _ := ⟨0, 0⟩
  requests := [0]
  requestTimeout := 60
  startTime := 0
  sessions_nodup := List.nodup_singleton 0
  requests_nodup := List.nodup_singleton 0

/-- A packet at the time `now`; the pools hand out their first free object. -/
def tftpPacket (srcIp srcPort dstIp dstPort now : ℕ) (data : List UInt8) : TaskEvent TftpEnv :=
  .packet
    { arrival :=
        { pkt :=
            { ipDlen := data.length, tthLen := 42, payloadLen := data.length, pdata := some data
              isIpv6 := false, srcIp := srcIp, dstIp := dstIp, srcAddr := 0, dstAddr := 0
              srcPort := srcPort, dstPort := dstPort }
          timestamp := now }
      env := ⟨true, true⟩
      now := now, found := 0, sessionPick := 0, requestPick := 0, requestRetry := 0 }

/-- The client at `client` reads the file `a`. -/
def readRequest (client now : ℕ) : TaskEvent TftpEnv :=
  tftpPacket client 1000 2 69 now [0, 1, 97, 0, 97, 0]

/-- A file of one byte is read, and a request that gets no answer times out. -/
def transfer : List (TaskEvent TftpEnv) :=
  [readRequest 1 10, tftpPacket 2 2000 1 1000 11 [0, 3, 0, 1, 97], readRequest 1 12,
    .requestTimeouts 100]

theorem tftpTransfer_accounted : ∃ w, runTask tftpTask.create transfer = some w ∧ Accounted w :=
  appSessions_accounted tftpTask (by decide) (by decide +kernel)

def twoRequests : List (TaskEvent TftpEnv) := [readRequest 1 10, readRequest 3 11]

/-- The application session of the second request has no owner and was not finalised. -/
theorem twoRequests_not_accounted :
    ¬ ∃ w, runTask tftpTask.create twoRequests = some w ∧ Accounted w := by
  rintro ⟨w, hrun, haccounted⟩
  have hstate : (runTask tftpTask.create twoRequests).map
      (fun w => (w.owned, w.shandler.appSessions.next, w.shandler.appSessions.freed)) =
      some ([0], 2, []) := by decide +kernel
  rw [hrun] at hstate
  simp only [Option.map_some, Option.some.injEq, Prod.mk.injEq] at hstate
  obtain ⟨howned, hnext, hfreed⟩ := hstate
  have hone := haccounted.finalisedOnce 1 (by omega)
  rw [howned, hfreed] at hone
  cases hone

end CloudHands.Udp

import CloudHands.Http.Segmentation
import CloudHands.Http.Transaction

/-!
# The loops of the parsers end

Every pass of a loop of `tcp/app/http/do_http_parse.c` reads input, puts a complete request into
the pending list, takes a complete transaction off it, or leaves. The response loop would turn in
place on a session in a phase of the request, but only sessions that have left `cur_req` get into
the pending list.
-/

namespace CloudHands.Http

open Lib

variable (app : App) {dir : Dir}

theorem phaseStep_reads {s : HttpSession} (hs : inMessage dir s) (hok : SessionOk s)
    {din : List UInt8} (hne : din ≠ []) :
    ∃ r, phaseStep app dir s din = some r ∧
      ∀ s' rest, r = .more s' rest → SessionOk s' ∧ ∃ u, u ≠ [] ∧ din = u ++ rest := by
  by_cases hfits : directFits dir s din = true
  · obtain ⟨r, hr, hmatch⟩ :=
      stepMatches_phaseStep (messageDone_of_inMessage hs) (hok.chunk dir) hne hfits
    refine ⟨r, hr, ?_⟩
    rintro s' rest rfl
    obtain ⟨u, hdin, hu, heats⟩ := hmatch
    exact ⟨(heats.keeps hok (.nil (.inl hs))).1, u, hu, hdin⟩
  · -- a body of fixed length takes more than it has room for
    simp only [directFits, Bool.or_eq_true, not_or, decide_eq_true_eq, not_not] at hfits
    obtain ⟨⟨hphase, hchunked⟩, -⟩ := hfits
    refine ⟨.more (bodyDirectAppend s dir din) [], ?_, ?_⟩
    · rw [phaseStep, if_pos hphase, bodyParse, if_neg hchunked]
    · rintro s' rest hr
      obtain ⟨rfl, rfl⟩ := StepResult.more.inj hr
      exact ⟨hok.bodyDirectAppend din, din, hne, (List.append_nil din).symm⟩

theorem inMessage_of_not_requestDone {s : HttpSession} (h : ¬ requestDone s = true) :
    inMessage .request s := by
  unfold requestDone at h
  unfold inMessage startPhase headerPhase bodyPhase
  split at h
  · rename_i hphase
    exact .inl hphase
  · rename_i hphase
    exact .inr (.inl hphase)
  · rename_i hphase
    exact .inr (.inr hphase)
  · exact absurd rfl h

def responsePhases : List Phase := [.statusLine, .resHeader, .resBody, .done]

theorem requestDone_iff {s : HttpSession} :
    requestDone s = true ↔ s.parsePhase ∈ responsePhases := by
  unfold requestDone responsePhases
  cases s.parsePhase <;> decide

structure Apart (e : SessionEntry) : Prop where
  curReq : ∀ id ∈ e.curReq, id ∉ e.reqs
  pending : ∀ id ∈ e.reqs, (e.heap id).parsePhase ∈ responsePhases

theorem Owned.apart {e : SessionEntry} (h : Owned e) : Apart e where
  curReq _ hid hpending := h.curReq_notMem hid (List.mem_append_right _ hpending)
  pending id hid := requestDone_iff.1 (h.complete id (List.mem_append_right _ hid))

structure Sound (e : SessionEntry) : Prop where
  owned : Owned e
  sessions : ∀ id, SessionOk (e.heap id)

theorem Sound.init : Sound {} := ⟨.init, fun _ => .fresh⟩

theorem sessionOk_update {heap : ℕ → HttpSession} (h : ∀ id, SessionOk (heap id)) {s : HttpSession}
    (hs : SessionOk s) (id id' : ℕ) : SessionOk (Function.update heap id s id') := by
  rw [Function.update_apply]
  split
  · exact hs
  · exact h id'

theorem sessionOk_reqSessionGet {e : SessionEntry} (h : ∀ id, SessionOk (e.heap id)) (id : ℕ) :
    SessionOk (e.reqSessionGet.2.heap id) := by
  unfold SessionEntry.reqSessionGet
  split
  · exact h id
  · exact sessionOk_update h .fresh e.created id

theorem heap_sessionStore (e : SessionEntry) (id : ℕ) : (e.sessionStore id).heap = e.heap := by
  unfold SessionEntry.sessionStore
  split <;> rfl

theorem reqs_sessionStore (e : SessionEntry) (id : ℕ) :
    (e.sessionStore id).reqs = e.reqs.erase id := by
  unfold SessionEntry.sessionStore
  split <;> rfl

theorem resSessionGet_same {e e' : SessionEntry} {id : ℕ} (h : e.resSessionGet = some (id, e')) :
    e'.heap = e.heap ∧ e'.reqs = e.reqs := by
  unfold SessionEntry.resSessionGet at h
  split at h
  · obtain ⟨-, rfl⟩ := Prod.mk.inj (Option.some.inj h)
    exact ⟨rfl, rfl⟩
  · split at h
    · cases h
    · obtain ⟨-, rfl⟩ := Prod.mk.inj (Option.some.inj h)
      exact ⟨rfl, rfl⟩

/-- What a pass of a loop comes to: it leaves the loop, or reads the bytes `u`, or the request or
the whole transaction of its session is complete and the pending list is the longer or the shorter
for it. -/
inductive Progress (st : ObjectLoop) : Iter ObjectLoop (Verdict × SessionEntry) → Prop
  | leave (r : Verdict × SessionEntry) : Progress st (.leave r)
  | read {s : HttpSession} {u rest : List UInt8} (hne : u ≠ []) (hdin : st.din = u ++ rest) :
      Progress st (.next ⟨st.entry.write st.session s, st.session, rest⟩)
  | queue {e : SessionEntry} {id : ℕ} (hdone : requestDone (st.entry.heap st.session) = true)
      (hreqs : e.reqs = st.entry.reqs ++ [st.session]) : Progress st (.next ⟨e, id, st.din⟩)
  | store {e : SessionEntry} {id : ℕ} (hdone : (st.entry.heap st.session).parsePhase = .done)
      (hreqs : st.entry.reqs = st.session :: e.reqs) : Progress st (.next ⟨e, id, st.din⟩)

theorem requestObjectIter_cases {st : ObjectLoop} (hok : ∀ id, SessionOk (st.entry.heap id)) :
    (∃ r, requestObjectIter app st = .leave r ∧ (r.1 = .break ∨ ∀ id, SessionOk (r.2.heap id))) ∨
    (∃ s' u rest, requestObjectIter app st =
        .next ⟨st.entry.write st.session s', st.session, rest⟩ ∧
      SessionOk s' ∧ u ≠ [] ∧ st.din = u ++ rest) ∨
    (requestDone (st.entry.heap st.session) = true ∧ requestObjectIter app st =
      .next ⟨(st.entry.sessionAdd st.session).reqSessionGet.2,
        (st.entry.sessionAdd st.session).reqSessionGet.1, st.din⟩) := by
  by_cases hne : st.din = []
  · refine .inl ?_
    simp only [requestObjectIter, if_pos hne]
    split
    · exact ⟨_, rfl, .inr hok⟩
    · exact ⟨_, rfl, .inr hok⟩
  · by_cases hdone : requestDone (st.entry.heap st.session) = true
    · refine .inr (.inr ⟨hdone, ?_⟩)
      simp only [requestObjectIter, if_neg hne, if_pos hdone]
    · simp only [requestObjectIter, if_neg hne, if_neg hdone]
      obtain ⟨r, hr, hreads⟩ := phaseStep_reads app
        (inMessage_of_not_requestDone hdone) (hok st.session) hne
      rw [hr]
      cases r with
      | wait => exact .inl ⟨_, rfl, .inr hok⟩
      | fail s' => exact .inl ⟨_, rfl, .inl rfl⟩
      | more s' rest =>
        obtain ⟨hok', u, hu, hdin⟩ := hreads s' rest rfl
        exact .inr (.inl ⟨s', u, rest, rfl, hok', hu, hdin⟩)

theorem responsePass_cases {st : ObjectLoop} (hok : ∀ id, SessionOk (st.entry.heap id))
    (hne : st.din ≠ []) (hin : inMessage .response (st.entry.heap st.session)) :
    (∃ r, responseObjectIter app st = .leave r ∧ (r.1 = .break ∨ ∀ id, SessionOk (r.2.heap id))) ∨
    (∃ s' u rest, responseObjectIter app st =
        .next ⟨st.entry.write st.session s', st.session, rest⟩ ∧
      SessionOk s' ∧ u ≠ [] ∧ st.din = u ++ rest) := by
  obtain ⟨r, hr, hreads⟩ := phaseStep_reads app hin (hok st.session) hne
  -- the three phases of a response share one pass
  have hpass : responseObjectIter app st =
      match r with
      | .wait => .leave (.continue, { st.entry with resRemain := st.din })
      | .fail s' => .leave (.break, { st.entry.write st.session s' with resRemain := [] })
      | .more s' rest => .next ⟨st.entry.write st.session s', st.session, rest⟩ := by
    rcases hin with h | h | h
    · have hphase : (st.entry.heap st.session).parsePhase = .statusLine := h
      simp only [responseObjectIter, if_neg hne, hphase, hr]
      cases r <;> rfl
    · have hphase : (st.entry.heap st.session).parsePhase = .resHeader := h
      simp only [responseObjectIter, if_neg hne, hphase, hr]
      cases r <;> rfl
    · have hphase : (st.entry.heap st.session).parsePhase = .resBody := h
      simp only [responseObjectIter, if_neg hne, hphase, hr]
      cases r <;> rfl
  rw [hpass]
  cases r with
  | wait => exact .inl ⟨_, rfl, .inr hok⟩
  | fail s' => exact .inl ⟨_, rfl, .inl rfl⟩
  | more s' rest =>
    obtain ⟨hok', u, hu, hdin⟩ := hreads s' rest rfl
    exact .inr ⟨s', u, rest, rfl, hok', hu, hdin⟩

theorem responseObjectIter_cases {st : ObjectLoop} (hok : ∀ id, SessionOk (st.entry.heap id))
    (hdone : requestDone (st.entry.heap st.session) = true) :
    (∃ r, responseObjectIter app st = .leave r ∧ (r.1 = .break ∨ ∀ id, SessionOk (r.2.heap id))) ∨
    (∃ s' u rest, responseObjectIter app st =
        .next ⟨st.entry.write st.session s', st.session, rest⟩ ∧
      SessionOk s' ∧ u ≠ [] ∧ st.din = u ++ rest) ∨
    (∃ id e, responseObjectIter app st = .next ⟨e, id, st.din⟩ ∧
      (st.entry.heap st.session).parsePhase = .done ∧
      (st.entry.sessionStore st.session).resSessionGet = some (id, e)) := by
  have hstore : ∀ id, SessionOk ((st.entry.sessionStore st.session).heap id) := by
    rw [heap_sessionStore]
    exact hok
  by_cases hne : st.din = []
  · refine .inl ?_
    simp only [responseObjectIter, if_pos hne]
    split
    · exact ⟨_, rfl, .inr hstore⟩
    · exact ⟨_, rfl, .inr hok⟩
  · by_cases hphase : (st.entry.heap st.session).parsePhase = .done
    · simp only [responseObjectIter, if_neg hne, hphase]
      cases hget : (st.entry.sessionStore st.session).resSessionGet with
      | none => exact .inl ⟨_, rfl, .inl rfl⟩
      | some next => exact .inr (.inr ⟨next.1, next.2, rfl, trivial, rfl⟩)
    · have hin : inMessage .response (st.entry.heap st.session) := by
        have hmem := requestDone_iff.1 hdone
        simp only [responsePhases, List.mem_cons, List.not_mem_nil, or_false, hphase] at hmem
        exact hmem
      rcases responsePass_cases app hok hne hin with hleave | hread
      · exact .inl hleave
      · exact .inr (.inl hread)

structure RequestSound (st : ObjectLoop) : Prop where
  owned : RequestOwned st
  sessions : ∀ id, SessionOk (st.entry.heap id)

def requestObjectMeasure (st : ObjectLoop) : ℕ :=
  2 * st.din.length + if requestDone (st.entry.heap st.session) then 1 else 0

theorem heap_reqSessionGet {e : SessionEntry} (h : e.curReq = none) :
    e.reqSessionGet.2.heap e.reqSessionGet.1 = {} ∧ e.reqSessionGet.2.reqs = e.reqs := by
  simp [SessionEntry.reqSessionGet, h]

theorem RequestSound.progress {st : ObjectLoop} (h : RequestSound st) :
    Progress st (requestObjectIter app st) := by
  rcases requestObjectIter_cases app h.sessions with
    ⟨r, hr, -⟩ | ⟨s', u, rest, hnext, -, hu, hdin⟩ | ⟨hdone, hnext⟩
  · rw [hr]
    exact .leave r
  · rw [hnext]
    exact .read hu hdin
  · rw [hnext]
    have hnone := (h.owned.owned.sessionAdd h.owned.session hdone).2
    exact .queue hdone (heap_reqSessionGet hnone).2

theorem RequestSound.next {st st' : ObjectLoop} (h : RequestSound st)
    (hiter : requestObjectIter app st = .next st') :
    RequestSound st' ∧ requestObjectMeasure st' < requestObjectMeasure st := by
  have howned := @requestObjectIter_owned app st h.owned
  rw [hiter] at howned
  rcases requestObjectIter_cases app h.sessions with
    ⟨r, hr, -⟩ | ⟨s', u, rest, hnext, hok, hu, hdin⟩ | ⟨hdone, hnext⟩
  · rw [hr] at hiter
    cases hiter
  · rw [hnext] at hiter
    obtain rfl := Iter.next.inj hiter
    refine ⟨⟨howned, sessionOk_update h.sessions hok st.session⟩, ?_⟩
    have hlen := List.length_pos_of_ne_nil hu
    simp only [requestObjectMeasure, hdin, List.length_append]
    split <;> split <;> omega
  · rw [hnext] at hiter
    obtain rfl := Iter.next.inj hiter
    have hnone := (h.owned.owned.sessionAdd h.owned.session hdone).2
    have hfresh : requestDone {} = false := rfl
    refine ⟨⟨howned, sessionOk_reqSessionGet h.sessions⟩, ?_⟩
    simp only [requestObjectMeasure, (heap_reqSessionGet hnone).1, hfresh, hdone, if_true]
    exact Nat.lt_succ_self _

structure ResponseSound (st : ObjectLoop) : Prop where
  owned : ResponseOwned st
  sessions : ∀ id, SessionOk (st.entry.heap id)

def responseObjectMeasure (st : ObjectLoop) : ℕ := st.din.length + st.entry.reqs.length

theorem ResponseSound.stored {st : ObjectLoop} (h : ResponseSound st) {id : ℕ} {e : SessionEntry}
    (hget : (st.entry.sessionStore st.session).resSessionGet = some (id, e)) :
    st.entry.reqs = st.session :: e.reqs := by
  obtain ⟨rest, hreqs, -⟩ := h.owned.owned.sessionRemove h.owned.session
  have hrest : e.reqs = rest := by
    rw [(resSessionGet_same hget).2, reqs_sessionStore, hreqs, List.erase_cons_head]
  rw [hrest, hreqs]

theorem ResponseSound.progress {st : ObjectLoop} (h : ResponseSound st) :
    Progress st (responseObjectIter app st) := by
  rcases responseObjectIter_cases app h.sessions h.owned.requestDone with
    ⟨r, hr, -⟩ | ⟨s', u, rest, hnext, -, hu, hdin⟩ | ⟨id, e, hnext, hdone, hget⟩
  · rw [hr]
    exact .leave r
  · rw [hnext]
    exact .read hu hdin
  · rw [hnext]
    exact .store hdone (h.stored hget)

theorem ResponseSound.next {st st' : ObjectLoop} (h : ResponseSound st)
    (hiter : responseObjectIter app st = .next st') :
    ResponseSound st' ∧ responseObjectMeasure st' < responseObjectMeasure st := by
  have howned := @responseObjectIter_owned app st h.owned
  rw [hiter] at howned
  rcases responseObjectIter_cases app h.sessions h.owned.requestDone with
    ⟨r, hr, -⟩ | ⟨s', u, rest, hnext, hok, hu, hdin⟩ | ⟨id, e, hnext, -, hget⟩
  · rw [hr] at hiter
    cases hiter
  · rw [hnext] at hiter
    obtain rfl := Iter.next.inj hiter
    refine ⟨⟨howned, sessionOk_update h.sessions hok st.session⟩, ?_⟩
    have hlen := List.length_pos_of_ne_nil hu
    simp only [responseObjectMeasure, hdin, List.length_append, SessionEntry.write]
    omega
  · rw [hnext] at hiter
    obtain rfl := Iter.next.inj hiter
    have hheap : e.heap = st.entry.heap := (resSessionGet_same hget).1.trans (heap_sessionStore _ _)
    refine ⟨⟨howned, fun id => hheap ▸ h.sessions id⟩, ?_⟩
    simp only [responseObjectMeasure, h.stored hget, List.length_cons]
    omega

/-- A loop that ends within `bound` passes, whose every pass makes progress on an entry in which
what the loops rest on holds. -/
structure Ends (iter : ObjectLoop → Iter ObjectLoop (Verdict × SessionEntry)) (bound : ℕ)
    (start : ObjectLoop) : Prop where
  ends : (loop iter bound start).isSome
  progress : ∀ st, Passes iter start st → Progress st (iter st) ∧ Apart st.entry

/-- The start of the loop of `do_http_request_parse`. -/
def requestObjectStart (e : SessionEntry) (data : List UInt8) : ObjectLoop :=
  ⟨e.reqSessionGet.2, e.reqSessionGet.1, readPrefare e.reqRemain data⟩

/-- The start of the loop of `do_http_response_parse`, none when there is no request. -/
def responseObjectStart (e : SessionEntry) (data : List UInt8) : Option ObjectLoop :=
  e.resSessionGet.map fun next => ⟨next.2, next.1, readPrefare next.2.resRemain data⟩

theorem Sound.requestStart {e : SessionEntry} (h : Sound e) (data : List UInt8) :
    RequestSound (requestObjectStart e data) := by
  obtain ⟨howned, hcur⟩ := h.owned.reqSessionGet
  exact ⟨⟨howned, hcur⟩, sessionOk_reqSessionGet h.sessions⟩

theorem Sound.responseStart {e : SessionEntry} (h : Sound e) {data : List UInt8}
    {start : ObjectLoop}
    (hstart : responseObjectStart e data = some start) : ResponseSound start := by
  obtain ⟨⟨id, e'⟩, hget, rfl⟩ := Option.map_eq_some_iff.1 hstart
  obtain ⟨howned, hcur⟩ := h.owned.resSessionGet hget
  refine ⟨⟨howned, hcur⟩, fun id' => ?_⟩
  rw [(resSessionGet_same hget).1]
  exact h.sessions id'

theorem Sound.requestEnds {e : SessionEntry} (h : Sound e) (data : List UInt8) :
    Ends (requestObjectIter app) (2 * (readPrefare e.reqRemain data).length + 2)
      (requestObjectStart e data) where
  ends := by
    refine loop_isSome requestObjectMeasure RequestSound (RequestSound.next app)
      (h.requestStart data) ?_
    unfold requestObjectMeasure
    have hone : (if requestDone ((requestObjectStart e data).entry.heap
        (requestObjectStart e data).session) then 1 else 0) ≤ 1 := by
      generalize requestDone _ = done
      cases done <;> decide
    exact Nat.add_lt_add_left (Nat.lt_succ_of_le hone) _
  progress st hst := by
    have hsound : RequestSound st :=
      hst.invariant (fun hinv hiter => (RequestSound.next app hinv hiter).1) (h.requestStart data)
    exact ⟨hsound.progress app, hsound.owned.owned.apart⟩

theorem Sound.responseEnds {e : SessionEntry} (h : Sound e) {data : List UInt8} {start : ObjectLoop}
    (hstart : responseObjectStart e data = some start) :
    Ends (responseObjectIter app) (start.din.length + start.entry.reqs.length + 1) start where
  ends := loop_isSome responseObjectMeasure ResponseSound (ResponseSound.next app)
    (h.responseStart hstart) (Nat.lt_succ_self _)
  progress st hst := by
    have hsound : ResponseSound st :=
      hst.invariant (fun hinv hiter =>
        (ResponseSound.next app hinv hiter).1) (h.responseStart hstart)
    exact ⟨hsound.progress app, hsound.owned.owned.apart⟩

theorem Sound.requestParse {e : SessionEntry} (h : Sound e) (data : List UInt8) :
    ∃ r, requestObjectParse app e data = some r ∧ (r.1 = .break ∨ Sound r.2) := by
  obtain ⟨r, hr⟩ := Option.isSome_iff_exists.1 (h.requestEnds app data).ends
  have hparse : requestObjectParse app e data = some r := hr
  refine ⟨r, hparse, ?_⟩
  have hok : r.1 = .break ∨ ∀ id, SessionOk (r.2.heap id) := by
    refine loop_invariant RequestSound
      (fun r => r.1 = .break ∨ ∀ id, SessionOk (r.2.heap id))
      (fun hinv hiter => (RequestSound.next app hinv hiter).1) ?_
      (h.requestStart data) hr
    intro st r' hst hleave
    rcases requestObjectIter_cases app hst.sessions with
      ⟨r'', hr'', hok⟩ | ⟨s', u, rest, hnext, -⟩ | ⟨-, hnext⟩
    · obtain rfl := Iter.leave.inj (hr''.symm.trans hleave)
      exact hok
    · rw [hnext] at hleave
      cases hleave
    · rw [hnext] at hleave
      cases hleave
  exact hok.imp_right fun hok => ⟨requestObjectParse_owned h.owned hparse, hok⟩

theorem Sound.responseParse {e : SessionEntry} (h : Sound e) (data : List UInt8) :
    ∃ r, responseObjectParse app e data = some r ∧ (r.1 = .break ∨ Sound r.2) := by
  cases hget : e.resSessionGet with
  | none => exact ⟨_, by rw [responseObjectParse, hget], .inl rfl⟩
  | some next =>
    have hstart : responseObjectStart e data =
        some ⟨next.2, next.1, readPrefare next.2.resRemain data⟩ := by
      rw [responseObjectStart, hget]
      rfl
    obtain ⟨r, hr⟩ := Option.isSome_iff_exists.1 (h.responseEnds app hstart).ends
    have hparse : responseObjectParse app e data = some r := by
      rw [responseObjectParse, hget]
      exact hr
    refine ⟨r, hparse, ?_⟩
    have hok : r.1 = .break ∨ ∀ id, SessionOk (r.2.heap id) := by
      refine loop_invariant ResponseSound
        (fun r => r.1 = .break ∨ ∀ id, SessionOk (r.2.heap id))
        (fun hinv hiter => (ResponseSound.next app hinv hiter).1) ?_
        (h.responseStart hstart) hr
      intro st r' hst hleave
      rcases responseObjectIter_cases app hst.sessions hst.owned.requestDone with
        ⟨r'', hr'', hok⟩ | ⟨s', u, rest, hnext, -⟩ | ⟨id, e', hnext, -⟩
      · obtain rfl := Iter.leave.inj (hr''.symm.trans hleave)
        exact hok
      · rw [hnext] at hleave
        cases hleave
      · rw [hnext] at hleave
        cases hleave
    exact hok.imp_right fun hok => ⟨responseObjectParse_owned h.owned hparse, hok⟩

def ConnSound : ObjectConn → Prop
  | .running e => Sound e
  | .cleaned _ => True

theorem connSound_result {r : Verdict × SessionEntry} (h : r.1 = .break ∨ Sound r.2) :
    ConnSound (.result r) := by
  unfold ObjectConn.result
  split
  · exact trivial
  · rename_i hgo
    exact h.resolve_left hgo

theorem objectStep_sound {conn : ObjectConn} (h : ConnSound conn) (event : ConnEvent) :
    ∃ conn', objectStep app conn event = some conn' ∧ ConnSound conn' := by
  cases conn with
  | cleaned c => exact ⟨.cleaned c, rfl, trivial⟩
  | running e =>
    cases event with
    | close => exact ⟨_, rfl, trivial⟩
    | data piece =>
      rw [objectStep]
      cases piece.dir with
      | request =>
        obtain ⟨r, hr, hsound⟩ := Sound.requestParse app h piece.data
        dsimp only
        rw [hr]
        exact ⟨_, rfl, connSound_result hsound⟩
      | response =>
        obtain ⟨r, hr, hsound⟩ := Sound.responseParse app h piece.data
        dsimp only
        rw [hr]
        exact ⟨_, rfl, connSound_result hsound⟩

theorem objectRun_sound (app : App) (events : List ConnEvent) :
    ∃ conn, objectRun app events = some conn ∧ ConnSound conn := by
  have hall : ∀ conn, ConnSound conn →
      ∃ conn', events.foldlM (objectStep app) conn = some conn' ∧ ConnSound conn' := by
    induction events with
    | nil => exact fun conn h => ⟨conn, rfl, h⟩
    | cons event events ih =>
      intro conn h
      obtain ⟨mid, hmid, hsound⟩ := objectStep_sound app h event
      rw [List.foldlM_cons, hmid]
      exact ih mid hsound
  exact hall (.running {}) Sound.init

/-- At every entry that a connection can reach, and for every piece of data, the loops of both
parsers end, with progress at every pass. -/
theorem parseLoops_end (app : App) (events : List ConnEvent) {e : SessionEntry}
    (hrun : objectRun app events = some (.running e)) (data : List UInt8) :
    Apart e ∧
      Ends (requestObjectIter app) (2 * (readPrefare e.reqRemain data).length + 2)
        (requestObjectStart e data) ∧
      (∀ start, responseObjectStart e data = some start →
        Ends (responseObjectIter app) (start.din.length + start.entry.reqs.length + 1) start) ∧
      (requestObjectParse app e data).isSome ∧ (responseObjectParse app e data).isSome := by
  obtain ⟨conn, hconn, hsound⟩ := objectRun_sound app events
  obtain rfl := Option.some.inj (hrun.symm.trans hconn)
  have he : Sound e := hsound
  obtain ⟨r, hr, -⟩ := Sound.requestParse app he data
  obtain ⟨r', hr', -⟩ := Sound.responseParse app he data
  exact ⟨he.owned.apart, he.requestEnds app data, fun _ => he.responseEnds app, by rw [hr]; rfl,
    by rw [hr']; rfl⟩

def queuedPieces : List ConnEvent :=
  [.data ⟨.request, bytesOf "GET / HTTP/1.1\r\n\r\nGET / HTTP/1.1\r\n\r\nGET", by decide +kernel⟩]

theorem queuedPieces_end :
    ∃ e, objectRun acceptAll queuedPieces = some (.running e) ∧
      (responseObjectParse acceptAll e (bytesOf "HTTP/1.1 200 OK\r\n\r\nHTTP/1.1")).isSome := by
  obtain ⟨conn, hconn, -⟩ := objectRun_sound acceptAll queuedPieces
  have hnot : ((objectRun acceptAll queuedPieces).bind ObjectConn.cleaned?).isNone = true := by
    decide +kernel
  cases conn with
  | cleaned c =>
    rw [hconn] at hnot
    cases hnot
  | running e => exact ⟨e, hconn, (parseLoops_end acceptAll queuedPieces hconn _).2.2.2.2⟩

end CloudHands.Http

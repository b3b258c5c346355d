import CloudHands.Http.Bytewise

/-!
# The session objects of an entry

The parsers of `tcp/app/http/do_http_parse.c` over the objects they allocate: `cur_req`,
`cur_res` and the pending list are pointers, and the objects live in the memory pool of the
entry until `do_http_session_entry_clean` frees it. Objects are numbered in the order of
their creation.
-/

namespace CloudHands.Http

open Lib

/-- `ch_http_session_entry_t` with the objects of its pool, those written to the store, and
those taken off the list with their bodies closed. -/
structure SessionEntry where
  heap : ℕ → HttpSession := fun _ => {}
  created : ℕ := 0
  reqs : List ℕ := []
  curReq : Option ℕ := none
  curRes : Option ℕ := none
  reqRemain : List UInt8 := []
  resRemain : List UInt8 := []
  stored : List ℕ := []
  released : List ℕ := []

namespace SessionEntry

def write (e : SessionEntry) (id : ℕ) (s : HttpSession) : SessionEntry :=
  { e with heap := Function.update e.heap id s }

def reqSessionGet (e : SessionEntry) : ℕ × SessionEntry :=
  match e.curReq with
  | some id => (id, e)
  | none =>
    (e.created,
      { e with
        heap := Function.update e.heap e.created {}
        created := e.created + 1
        curReq := some e.created })

def resSessionGet (e : SessionEntry) : Option (ℕ × SessionEntry) :=
  match e.curRes with
  | some id => some (id, e)
  | none =>
    match e.reqs with
    | [] => none
    | id :: _ => some (id, { e with curRes := some id })

def sessionAdd (e : SessionEntry) (id : ℕ) : SessionEntry :=
  { e with
    reqs := e.reqs ++ [id]
    curReq := if e.curReq = some id then none else e.curReq }

/-- `ch_http_sentry_session_remove` and `ch_http_sentry_session_discard`: both take the
object off the list and close its bodies. -/
def sessionRemove (e : SessionEntry) (id : ℕ) : SessionEntry :=
  { e with
    reqs := e.reqs.erase id
    curReq := if e.curReq = some id then none else e.curReq
    curRes := if e.curRes = some id then none else e.curRes
    released := e.released ++ [id] }

/-- `_http_session_store`. -/
def sessionStore (e : SessionEntry) (id : ℕ) : SessionEntry :=
  if (e.heap id).isPass then e.sessionRemove id
  else { e.sessionRemove id with stored := e.stored ++ [id] }

end SessionEntry

/-- The local variables of a parser: `session` points to the object it works on. -/
structure ObjectLoop where
  entry : SessionEntry
  session : ℕ
  din : List UInt8

/-- One pass of the loop of `do_http_request_parse`. -/
def requestObjectIter (app : App) (st : ObjectLoop) : Iter ObjectLoop (Verdict × SessionEntry) :=
  let e := st.entry
  let s := e.heap st.session
  if st.din = [] then
    if requestDone s then .leave (.continue, { e.sessionAdd st.session with reqRemain := [] })
    else .leave (.continue, { e with reqRemain := [] })
  else if requestDone s then
    let (id, e) := (e.sessionAdd st.session).reqSessionGet
    .next ⟨e, id, st.din⟩
  else
    match phaseStep app .request s st.din with
    | none => .next st
    | some .wait => .leave (.continue, { e with reqRemain := st.din })
    | some (.fail s') => .leave (.break, { e.write st.session s' with reqRemain := [] })
    | some (.more s' rest) => .next ⟨e.write st.session s', st.session, rest⟩

/-- `do_http_request_parse`. -/
def requestObjectParse (app : App) (e : SessionEntry) (data : List UInt8) :
    Option (Verdict × SessionEntry) :=
  let din := readPrefare e.reqRemain data
  let (id, e) := e.reqSessionGet
  loop (requestObjectIter app) (2 * din.length + 2) ⟨e, id, din⟩

/-- One pass of the loop of `do_http_response_parse`. -/
def responseObjectIter (app : App) (st : ObjectLoop) : Iter ObjectLoop (Verdict × SessionEntry) :=
  let e := st.entry
  let s := e.heap st.session
  if st.din = [] then
    if s.parsePhase = .done then
      .leave (if isKeepalive s then .continue else .done,
        { e.sessionStore st.session with resRemain := [] })
    else .leave (.continue, { e with resRemain := [] })
  else
    match s.parsePhase with
    | .done =>
      let e := e.sessionStore st.session
      match e.resSessionGet with
      | none => .leave (.break, { e with resRemain := [] })
      | some (id, e) => .next ⟨e, id, st.din⟩
    | .statusLine | .resHeader | .resBody =>
      match phaseStep app .response s st.din with
      | none => .next st
      | some .wait => .leave (.continue, { e with resRemain := st.din })
      | some (.fail s') => .leave (.break, { e.write st.session s' with resRemain := [] })
      | some (.more s' rest) => .next ⟨e.write st.session s', st.session, rest⟩
    | _ => .next st

/-- `do_http_response_parse`. -/
def responseObjectParse (app : App) (e : SessionEntry) (data : List UInt8) :
    Option (Verdict × SessionEntry) :=
  match e.resSessionGet with
  | none => some (.break, { e with resRemain := [] })
  | some (id, e) =>
    let din := readPrefare e.resRemain data
    loop (responseObjectIter app) (din.length + e.reqs.length + 1) ⟨e, id, din⟩

def canStore (s : HttpSession) : Bool := s.parsePhase ≠ .reqLine

/-- What is left of an entry after it has been cleaned: what happened to its objects. The
object that `cur_req` pointed to is freed with the pool like the others. -/
structure CleanedEntry where
  heap : ℕ → HttpSession
  freed : List ℕ
  stored : List ℕ
  released : List ℕ
  underWay : Option ℕ

/-- `do_http_session_entry_clean`. -/
def sessionEntryClean (e : SessionEntry) : CleanedEntry where
  heap := e.heap
  freed := List.range e.created
  stored := e.stored ++ e.reqs.filter fun id => !(e.heap id).isPass && canStore (e.heap id)
  released := e.released ++ e.reqs
  underWay := e.curReq

inductive ObjectConn
  | running (e : SessionEntry)
  | cleaned (c : CleanedEntry)

/-- A piece of data, or the close of the connection by its end, an error or a timeout. -/
inductive ConnEvent
  | data (piece : Piece)
  | close

def ObjectConn.result (r : Verdict × SessionEntry) : ObjectConn :=
  if r.1 = .break then .cleaned (sessionEntryClean r.2) else .running r.2

def objectStep (app : App) : ObjectConn → ConnEvent → Option ObjectConn
  | .cleaned c, _ => some (.cleaned c)
  | .running e, .close => some (.cleaned (sessionEntryClean e))
  | .running e, .data piece =>
    match piece.dir with
    | .request => (requestObjectParse app e piece.data).map .result
    | .response => (responseObjectParse app e piece.data).map .result

def objectRun (app : App) (events : List ConnEvent) : Option ObjectConn :=
  events.foldlM (objectStep app) (.running {})

variable {app : App}

theorem requestDone_of_parsePhase {s s' : HttpSession} (h : s'.parsePhase = s.parsePhase)
    (hs : requestDone s = true) : requestDone s' = true := by
  rw [requestDone, h]
  exact hs

theorem requestDone_headerEndStateSet (s : HttpSession) :
    requestDone (headerEndStateSet s .response) = true := by
  simp only [headerEndStateSet, requestDone, bodyPhase, endPhase]
  cases hasBody s .response <;> rfl

def LineResult.session : LineResult → HttpSession
  | .ok s => s
  | .fail s => s

theorem requestDone_lineHandle {s : HttpSession} (raw : List UInt8) (hs : requestDone s = true) :
    requestDone (lineHandle app .response s raw).session = true := by
  unfold lineHandle
  split
  · simp only [statusLineHandle]
    cases statusLineParse raw with
    | none => exact hs
    | some status => rfl
  · unfold headerLineHandle
    split
    · dsimp only
      split
      · exact requestDone_headerEndStateSet s
      · exact requestDone_headerEndStateSet s
    · cases headerLineParse raw with
      | none => exact hs
      | some header =>
          exact requestDone_of_parsePhase (parsePhase_headerAdd s raw header .response) hs

def StepResult.session? : StepResult → Option HttpSession
  | .wait => none
  | .fail s => some s
  | .more s _ => some s

theorem requestDone_bodyParse {s s' : HttpSession} {din : List UInt8} {r : StepResult}
    (hs : requestDone s = true) (h : bodyParse s .response din = some r)
    (hr : r.session? = some s') : requestDone s' = true := by
  unfold bodyParse at h
  split at h
  · obtain ⟨sinkEnd, -, rfl⟩ := Option.map_eq_some_iff.1 h
    cases sinkEnd with
    | again sink =>
      obtain rfl := Option.some.inj hr
      exact requestDone_of_parsePhase (parsePhase_setSink s sink) hs
    | done sink rest =>
      obtain rfl := Option.some.inj hr
      rfl
    | invalid content n =>
      obtain rfl := Option.some.inj hr
      exact requestDone_of_parsePhase (parsePhase_setSink s _) hs
  · obtain rfl := Option.some.inj h
    obtain rfl := Option.some.inj hr
    rcases parsePhase_bodyDirectAppend s .response din with hphase | hphase
    · exact requestDone_of_parsePhase hphase hs
    · simp [requestDone, hphase, endPhase]

theorem requestDone_phaseStep {s s' : HttpSession} {din : List UInt8} {r : StepResult}
    (hs : requestDone s = true) (h : phaseStep app .response s din = some r)
    (hr : r.session? = some s') : requestDone s' = true := by
  unfold phaseStep at h
  split at h
  · exact requestDone_bodyParse hs h hr
  · cases hline : lineRead din with
    | none =>
      rw [hline] at h
      obtain rfl := Option.some.inj h
      cases hr
    | some line =>
      rw [hline] at h
      have hhandled : requestDone (lineHandle app .response s line.1).session = true :=
        requestDone_lineHandle line.1 hs
      cases hresult : lineHandle app .response s line.1 with
      | ok t =>
        rw [hresult] at hhandled
        simp only [hresult] at h
        obtain rfl := Option.some.inj h
        obtain rfl := Option.some.inj hr
        exact hhandled
      | fail t =>
        rw [hresult] at hhandled
        simp only [hresult] at h
        obtain rfl := Option.some.inj h
        obtain rfl := Option.some.inj hr
        exact hhandled

/-- In the order of their creation, the objects are released, pending, and last the current
request. What has left `cur_req` is a complete request, and of the released objects those
that the filter did not reject have been stored. -/
structure Owned (e : SessionEntry) : Prop where
  order : e.released ++ e.reqs ++ e.curReq.toList = List.range e.created
  curRes : ∀ id ∈ e.curRes, e.reqs.head? = some id
  complete : ∀ id ∈ e.released ++ e.reqs, requestDone (e.heap id) = true
  stored : e.stored = e.released.filter fun id => !(e.heap id).isPass

namespace Owned

variable {e : SessionEntry} {id : ℕ}

theorem init : Owned {} where
  order := rfl
  curRes := nofun
  complete := nofun
  stored := rfl

theorem nodup (h : Owned e) : (e.released ++ e.reqs ++ e.curReq.toList).Nodup := by
  rw [h.order]
  exact List.nodup_range

theorem lt_created (h : Owned e) (hid : id ∈ e.released ++ e.reqs) : id < e.created := by
  rw [← List.mem_range, ← h.order]
  exact List.mem_append_left _ hid

theorem curReq_notMem (h : Owned e) (hcur : e.curReq = some id) : id ∉ e.released ++ e.reqs := by
  have hnodup := h.nodup
  rw [hcur] at hnodup
  exact fun hid => (List.nodup_append.1 hnodup).2.2 id hid id (List.mem_singleton_self id) rfl

theorem reqs_notMem_released (h : Owned e) (hid : id ∈ e.reqs) : id ∉ e.released := by
  have hnodup := (List.nodup_append.1 h.nodup).1
  exact fun hreleased => (List.nodup_append.1 hnodup).2.2 id hreleased id hid rfl

theorem write (h : Owned e) {s : HttpSession} (hid : id ∉ e.released)
    (hs : id ∈ e.reqs → requestDone s = true) : Owned (e.write id s) where
  order := h.order
  curRes := h.curRes
  complete id' hid' := by
    by_cases heq : id' = id
    · subst heq
      have hreqs : id' ∈ e.reqs := (List.mem_append.1 hid').resolve_left hid
      simpa [SessionEntry.write] using hs hreqs
    · simpa [SessionEntry.write, Function.update_of_ne heq] using h.complete id' hid'
  stored := by
    refine h.stored.trans (List.filter_congr fun id' hid' => ?_)
    have hne : id' ≠ id := fun heq => hid (heq ▸ hid')
    simp [SessionEntry.write, Function.update_of_ne hne]

theorem reqSessionGet (h : Owned e) :
    Owned e.reqSessionGet.2 ∧ e.reqSessionGet.2.curReq = some e.reqSessionGet.1 := by
  unfold SessionEntry.reqSessionGet
  cases hcur : e.curReq with
  | some id => exact ⟨h, hcur⟩
  | none =>
    have hother : ∀ id ∈ e.released ++ e.reqs,
        Function.update e.heap e.created {} id = e.heap id := by
      intro id hid
      exact Function.update_of_ne (h.lt_created hid).ne _ _
    refine ⟨⟨?_, h.curRes, ?_, ?_⟩, rfl⟩
    · have horder := h.order
      rw [hcur] at horder
      simp only [Option.toList_none, List.append_nil] at horder
      rw [List.range_succ, ← horder]
      rfl
    · intro id hid
      exact (congrArg requestDone (hother id hid)).trans (h.complete id hid)
    · refine h.stored.trans (List.filter_congr fun id hid => ?_)
      exact congrArg (fun s : HttpSession => !s.isPass)
        (hother id (List.mem_append_left _ hid)).symm

theorem sessionAdd (h : Owned e) (hcur : e.curReq = some id)
    (hdone : requestDone (e.heap id) = true) :
    Owned (e.sessionAdd id) ∧ (e.sessionAdd id).curReq = none := by
  have horder := h.order
  rw [hcur] at horder
  refine ⟨⟨?_, ?_, ?_, h.stored⟩, by simp [SessionEntry.sessionAdd, hcur]⟩
  · simpa [SessionEntry.sessionAdd, hcur] using horder
  · intro id' hid'
    have hhead := h.curRes id' hid'
    simp [SessionEntry.sessionAdd, List.head?_append, hhead]
  · intro id' hid'
    rw [SessionEntry.sessionAdd, ← List.append_assoc] at hid'
    rcases List.mem_append.1 hid' with hold | hnew
    · exact h.complete id' hold
    · rw [List.mem_singleton.1 hnew]
      exact hdone

theorem resSessionGet {e' : SessionEntry} (h : Owned e) (hget : e.resSessionGet = some (id, e')) :
    Owned e' ∧ e'.curRes = some id := by
  unfold SessionEntry.resSessionGet at hget
  split at hget
  case h_1 id' hcur =>
    obtain ⟨rfl, rfl⟩ := Prod.mk.inj (Option.some.inj hget)
    exact ⟨h, hcur⟩
  case h_2 =>
    split at hget
    case h_1 => cases hget
    case h_2 id' rest hreqs =>
      obtain ⟨rfl, rfl⟩ := Prod.mk.inj (Option.some.inj hget)
      refine ⟨⟨h.order, ?_, h.complete, h.stored⟩, rfl⟩
      intro id'' hid''
      obtain rfl := Option.some.inj hid''
      simp [hreqs]

theorem sessionRemove (h : Owned e) (hcur : e.curRes = some id) :
    ∃ rest, e.reqs = id :: rest ∧ (e.sessionRemove id).reqs = rest ∧
      (e.sessionRemove id).curRes = none ∧ (e.sessionRemove id).curReq = e.curReq := by
  have hhead := h.curRes id hcur
  cases hreqs : e.reqs with
  | nil => simp [hreqs] at hhead
  | cons id' rest =>
    rw [hreqs] at hhead
    obtain rfl : id' = id := Option.some.inj hhead
    have hother : e.curReq ≠ some id' := by
      intro hsame
      exact h.curReq_notMem hsame (by simp [hreqs])
    exact ⟨rest, rfl, by simp [SessionEntry.sessionRemove, hreqs],
      by simp [SessionEntry.sessionRemove, hcur], by simp [SessionEntry.sessionRemove, hother]⟩

theorem sessionStore (h : Owned e) (hcur : e.curRes = some id) : Owned (e.sessionStore id) := by
  obtain ⟨rest, hreqs, hreqs', hcurRes, hcurReq⟩ := h.sessionRemove hcur
  have horder : (e.released ++ [id]) ++ (e.sessionRemove id).reqs ++
      (e.sessionRemove id).curReq.toList = List.range e.created := by
    rw [hreqs', hcurReq, ← h.order, hreqs]
    simp
  have hcomplete : ∀ id' ∈ (e.released ++ [id]) ++ (e.sessionRemove id).reqs,
      requestDone (e.heap id') = true := by
    intro id' hid'
    rw [hreqs'] at hid'
    exact h.complete id' (by simpa [hreqs] using hid')
  have hnone : ∀ id' ∈ (e.sessionRemove id).curRes, (e.sessionRemove id).reqs.head? = some id' := by
    rw [hcurRes]
    exact nofun
  unfold SessionEntry.sessionStore
  split
  case isTrue hpass =>
    refine ⟨horder, hnone, hcomplete, ?_⟩
    exact h.stored.trans (by simp [SessionEntry.sessionRemove, List.filter_append, hpass])
  case isFalse hpass =>
    refine ⟨horder, hnone, hcomplete, ?_⟩
    simp [SessionEntry.sessionRemove, List.filter_append, hpass, h.stored]

theorem reqRemain (h : Owned e) (rest : List UInt8) : Owned { e with reqRemain := rest } :=
  ⟨h.order, h.curRes, h.complete, h.stored⟩

theorem resRemain (h : Owned e) (rest : List UInt8) : Owned { e with resRemain := rest } :=
  ⟨h.order, h.curRes, h.complete, h.stored⟩

end Owned

/-- Between two iterations of the request parser `session` is the current request. -/
structure RequestOwned (st : ObjectLoop) : Prop where
  owned : Owned st.entry
  session : st.entry.curReq = some st.session

/-- Between two iterations of the response parser `session` is the current response. -/
structure ResponseOwned (st : ObjectLoop) : Prop where
  owned : Owned st.entry
  session : st.entry.curRes = some st.session

theorem RequestOwned.write {st : ObjectLoop} (h : RequestOwned st) (s : HttpSession) :
    Owned (st.entry.write st.session s) := by
  have hnot := h.owned.curReq_notMem h.session
  exact h.owned.write (fun hid => hnot (List.mem_append_left _ hid))
    (fun hid => absurd (List.mem_append_right _ hid) hnot)

theorem ResponseOwned.mem_reqs {st : ObjectLoop} (h : ResponseOwned st) :
    st.session ∈ st.entry.reqs :=
  List.mem_of_head? (h.owned.curRes _ h.session)

theorem ResponseOwned.requestDone {st : ObjectLoop} (h : ResponseOwned st) :
    requestDone (st.entry.heap st.session) = true :=
  h.owned.complete _ (List.mem_append_right _ h.mem_reqs)

theorem ResponseOwned.write {st : ObjectLoop} (h : ResponseOwned st) {s : HttpSession}
    (hs : Http.requestDone s = true) : Owned (st.entry.write st.session s) :=
  h.owned.write (h.owned.reqs_notMem_released h.mem_reqs) fun _ => hs

theorem requestObjectIter_owned (st : ObjectLoop) (h : RequestOwned st) :
    (requestObjectIter app st).All RequestOwned fun r => Owned r.2 := by
  unfold requestObjectIter
  dsimp only
  split
  · split
    case isTrue hdone => exact (h.owned.sessionAdd h.session hdone).1.reqRemain []
    case isFalse => exact h.owned.reqRemain []
  · split
    case isTrue hdone =>
      obtain ⟨hget, hcur⟩ := (h.owned.sessionAdd h.session hdone).1.reqSessionGet
      exact ⟨hget, hcur⟩
    case isFalse =>
      split
      · exact h
      · exact h.owned.reqRemain st.din
      · exact (h.write _).reqRemain []
      · exact ⟨h.write _, h.session⟩

theorem requestObjectParse_owned {e : SessionEntry} {data : List UInt8}
    {r : Verdict × SessionEntry} (h : Owned e) (hparse : requestObjectParse app e data = some r) :
    Owned r.2 := by
  obtain ⟨hget, hcur⟩ := h.reqSessionGet
  exact loop_all requestObjectIter_owned ⟨hget, hcur⟩ hparse

theorem responsePass_owned {st : ObjectLoop} (h : ResponseOwned st) :
    Iter.All ResponseOwned (fun r : Verdict × SessionEntry => Owned r.2)
      (match phaseStep app .response (st.entry.heap st.session) st.din with
      | none => .next st
      | some .wait => .leave (.continue, { st.entry with resRemain := st.din })
      | some (.fail s') => .leave (.break, { st.entry.write st.session s' with resRemain := [] })
      | some (.more s' rest) => .next ⟨st.entry.write st.session s', st.session, rest⟩) := by
  split
  case h_1 => exact h
  case h_2 => exact h.owned.resRemain st.din
  case h_3 s' hstep => exact (h.write (requestDone_phaseStep h.requestDone hstep rfl)).resRemain []
  case h_4 s' rest hstep =>
    exact ⟨h.write (requestDone_phaseStep h.requestDone hstep rfl), h.session⟩

theorem responseObjectIter_owned (st : ObjectLoop) (h : ResponseOwned st) :
    (responseObjectIter app st).All ResponseOwned fun r => Owned r.2 := by
  unfold responseObjectIter
  dsimp only
  split
  · split
    · exact (h.owned.sessionStore h.session).resRemain []
    · exact h.owned.resRemain []
  · split
    · split
      case h_1 => exact (h.owned.sessionStore h.session).resRemain []
      case h_2 id e hget =>
        obtain ⟨howned, hcur⟩ := (h.owned.sessionStore h.session).resSessionGet hget
        exact ⟨howned, hcur⟩
    · exact responsePass_owned h
    · exact responsePass_owned h
    · exact responsePass_owned h
    · exact h

theorem responseObjectParse_owned {e : SessionEntry} {data : List UInt8}
    {r : Verdict × SessionEntry} (h : Owned e) (hparse : responseObjectParse app e data = some r) :
    Owned r.2 := by
  unfold responseObjectParse at hparse
  split at hparse
  · obtain rfl := Option.some.inj hparse
    exact h.resRemain []
  case h_2 id e' hget =>
    obtain ⟨howned, hcur⟩ := h.resSessionGet hget
    exact loop_all responseObjectIter_owned ⟨howned, hcur⟩ hparse

/-- What the clean-up makes of an entry that owns its objects. -/
def Accounted (c : CleanedEntry) : Prop := ∃ e, Owned e ∧ c = sessionEntryClean e

def ConnOwned : ObjectConn → Prop
  | .running e => Owned e
  | .cleaned c => Accounted c

theorem connOwned_result {r : Verdict × SessionEntry} (h : Owned r.2) :
    ConnOwned (.result r) := by
  unfold ObjectConn.result
  split
  · exact ⟨r.2, h, rfl⟩
  · exact h

theorem objectStep_owned {conn conn' : ObjectConn} {event : ConnEvent} (h : ConnOwned conn)
    (hstep : objectStep app conn event = some conn') : ConnOwned conn' := by
  cases conn with
  | cleaned c =>
    obtain rfl := Option.some.inj hstep
    exact h
  | running e =>
    cases event with
    | close =>
      obtain rfl := Option.some.inj hstep
      exact ⟨e, h, rfl⟩
    | data piece =>
      rw [objectStep] at hstep
      split at hstep
      · obtain ⟨r, hr, rfl⟩ := Option.map_eq_some_iff.1 hstep
        exact connOwned_result (requestObjectParse_owned h hr)
      · obtain ⟨r, hr, rfl⟩ := Option.map_eq_some_iff.1 hstep
        exact connOwned_result (responseObjectParse_owned h hr)

theorem objectRun_owned {events : List ConnEvent} {conn conn' : ObjectConn} (h : ConnOwned conn)
    (hrun : events.foldlM (objectStep app) conn = some conn') : ConnOwned conn' := by
  induction events generalizing conn with
  | nil =>
    obtain rfl := Option.some.inj hrun
    exact h
  | cons event events ih =>
    rw [List.foldlM_cons] at hrun
    obtain ⟨mid, hmid, hrest⟩ := Option.bind_eq_some_iff.1 hrun
    exact ih (objectStep_owned h hmid) hrest

section Cleaned

variable {e : SessionEntry} {id : ℕ}

/-- What has left `cur_req` passes `CAN_STORE`, so the clean-up stores all of the pending
list that the filter has not rejected. -/
theorem Owned.stored_clean (h : Owned e) :
    (sessionEntryClean e).stored =
      (sessionEntryClean e).released.filter fun id => !(e.heap id).isPass := by
  have hpending : (e.reqs.filter fun id => !(e.heap id).isPass && canStore (e.heap id)) =
      e.reqs.filter fun id => !(e.heap id).isPass := by
    refine List.filter_congr fun id hid => ?_
    have hdone := h.complete id (List.mem_append_right _ hid)
    have hstore : canStore (e.heap id) = true := by
      revert hdone
      unfold requestDone canStore
      cases (e.heap id).parsePhase <;> decide
    rw [hstore, Bool.and_true]
  simp only [sessionEntryClean, hpending, List.filter_append, ← h.stored]

theorem Owned.count_released (h : Owned e) (hid : id < e.created) (hnot : e.curReq ≠ some id) :
    (e.released ++ e.reqs).count id = 1 := by
  have hone : (e.released ++ e.reqs ++ e.curReq.toList).count id = 1 := by
    rw [h.order]
    exact List.count_eq_one_of_mem List.nodup_range (List.mem_range.2 hid)
  rw [List.count_append] at hone
  have hzero : e.curReq.toList.count id = 0 := by
    refine List.count_eq_zero_of_not_mem fun hmem => hnot ?_
    exact Option.mem_toList.1 hmem
  omega

end Cleaned

/-- The request header of the session has been read to its end. -/
def headerComplete (s : HttpSession) : Bool := s.parsePhase ≠ .reqLine ∧ s.parsePhase ≠ .reqHeader

theorem headerComplete_of_requestDone {s : HttpSession} (h : requestDone s = true) :
    headerComplete s = true := by
  revert h
  unfold requestDone headerComplete
  cases s.parsePhase <;> decide

/-- In every run until the entry is cleaned, the pool frees every object once. An object
that has left `cur_req` is released once, its request complete, and is stored once unless
the filter has rejected it; an object that has not got to the end of its request header or
that the filter has rejected is not stored, and no object is stored twice. -/
theorem session_objects_accounted (app : App) (events : List ConnEvent) (c : CleanedEntry)
    (hrun : objectRun app events = some (.cleaned c)) :
    c.freed.Nodup ∧
      (∀ id ∈ c.freed, c.underWay ≠ some id →
        c.released.count id = 1 ∧ requestDone (c.heap id) = true ∧
          c.stored.count id = if (c.heap id).isPass then 0 else 1) ∧
      (∀ id, headerComplete (c.heap id) = false ∨ (c.heap id).isPass = true →
        c.stored.count id = 0) ∧
      (∀ id, c.stored.count id ≤ 1 ∧ (id ∈ c.stored → id ∈ c.freed)) := by
  have hinit : ConnOwned (.running {}) := Owned.init
  obtain ⟨e, howned, rfl⟩ := objectRun_owned hinit hrun
  have hreleased : (e.released ++ e.reqs).Nodup := (List.nodup_append.1 howned.nodup).1
  have hmem : ∀ id ∈ (sessionEntryClean e).stored, id ∈ e.released ++ e.reqs := by
    intro id hid
    rw [howned.stored_clean] at hid
    exact List.mem_of_mem_filter hid
  refine ⟨List.nodup_range, ?_, ?_, ?_⟩
  · intro id hid hnot
    have hcount := howned.count_released (List.mem_range.1 hid) hnot
    have hin : id ∈ e.released ++ e.reqs := List.count_pos_iff.1 (by omega)
    refine ⟨hcount, howned.complete id hin, ?_⟩
    rw [howned.stored_clean]
    change _ = if (e.heap id).isPass then 0 else 1
    cases hpass : (e.heap id).isPass with
    | true =>
      refine List.count_eq_zero_of_not_mem fun hfilter => ?_
      simp [hpass] at hfilter
    | false => exact (List.count_filter (by simp [hpass])).trans hcount
  · intro id hcase
    refine List.count_eq_zero_of_not_mem fun hid => ?_
    rcases hcase with hheader | hpass
    · have hcomplete := headerComplete_of_requestDone (howned.complete id (hmem id hid))
      exact Bool.false_ne_true (hheader.symm.trans hcomplete)
    · rw [howned.stored_clean] at hid
      have hnot := (List.mem_filter.1 hid).2
      simp only [sessionEntryClean] at hpass
      simp [hpass] at hnot
  · intro id
    constructor
    · rw [howned.stored_clean]
      exact List.nodup_iff_count_le_one.1 (hreleased.filter _) id
    · exact fun hid => List.mem_range.2 (howned.lt_created (hmem id hid))

def rejecting : App := ⟨fun dir _ => dir = .request⟩

def rejectedEvents : List ConnEvent :=
  [.data ⟨.request, bytesOf "GET / HTTP/1.1\r\n\r\n", by decide +kernel⟩,
    .data ⟨.response, bytesOf "HTTP/1.1 200 OK\r\n\r\n", by decide +kernel⟩]

def ObjectConn.cleaned? : ObjectConn → Option CleanedEntry
  | .running _ => none
  | .cleaned c => some c

theorem exists_rejected : ∃ c, objectRun rejecting rejectedEvents = some (.cleaned c) ∧
    c.freed = [0] ∧ c.underWay = none ∧ c.stored = [] ∧ (c.heap 0).isPass = true ∧
      headerComplete (c.heap 0) = true := by
  have hcheck : ((objectRun rejecting rejectedEvents).bind ObjectConn.cleaned?).any (fun c =>
      c.freed = [0] ∧ c.underWay = none ∧ c.stored = [] ∧ (c.heap 0).isPass = true ∧
        headerComplete (c.heap 0) = true) = true := by
    decide +kernel
  obtain ⟨c, hc, hholds⟩ := (Option.any_eq_true _ _).1 hcheck
  obtain ⟨conn, hrun, hconn⟩ := Option.bind_eq_some_iff.1 hc
  cases conn with
  | running e => cases hconn
  | cleaned c' =>
    obtain rfl := Option.some.inj hconn
    exact ⟨c', hrun, of_decide_eq_true hholds⟩

theorem session_objects_accounted_rejected :
    ∃ c, objectRun rejecting rejectedEvents = some (.cleaned c) ∧
      c.released.count 0 = 1 ∧ c.stored.count 0 = 0 := by
  obtain ⟨c, hrun, hfreed, hnone, -, hpass, -⟩ := exists_rejected
  have hzero := (session_objects_accounted rejecting rejectedEvents c hrun).2.1 0
    (by simp [hfreed]) (by simp [hnone])
  exact ⟨c, hrun, hzero.1, by rw [hzero.2.2, hpass]; rfl⟩

theorem complete_request_not_stored :
    ¬ ∀ (app : App) (events : List ConnEvent) (c : CleanedEntry),
      objectRun app events = some (.cleaned c) →
        ∀ id ∈ c.freed, c.stored.count id = 1 ↔ headerComplete (c.heap id) = true := by
  intro h
  obtain ⟨c, hrun, hfreed, -, hstored, -, hheader⟩ := exists_rejected
  have hone := (h rejecting rejectedEvents c hrun 0 (by simp [hfreed])).2 hheader
  simp [hstored] at hone

end CloudHands.Http

import CloudHands.Table.Plist
import CloudHands.Udp.App

/-!
# The udp task

`ch_udp_session_request_handler.c` and `ch_udp_session_handler.c` with their tables, from a
packet to the sessions of the applications. A session of an application belongs to a pending
request, then to a UDP session; it is an object of an arena, so that a function that uses one
after its end has no result.

The table of UDP sessions stands for `ch_ptable.c`: its objects, the ones that are linked, and
the timeout ring. Which linked session of those that match a packet the lookup finds is left
open, and the watcher puts idle sessions on the empty ring in any order.
-/

namespace CloudHands.Udp

open CloudHands.Word (add sub)
open CloudHands.Lib
open CloudHands.Table
open CloudHands.Tcp (SessionDirect)
open CloudHands.Pkt

variable {σ ε : Type*}

/-- `ch_udp_session_t` as an entry of its table. -/
structure SessionEntry where
  peers : SaUdpSession
  tallies : EndpointTallies
  sessionId : ℕ
  appSession : ℕ
  lastTime : ℕ

/-- `taken` is the entry that the worker took from the ring and has not freed yet. -/
structure SessionTable where
  mem : ℕ → SessionEntry
  ep : List ℕ
  linked : List ℕ
  timeoutEntries : List ℕ
  taken : Option ℕ
  entryTimeout : ℕ

/-- `ch_udp_session_handler_t` with the memory of the application sessions. -/
structure SessionHandler (σ ε : Type*) where
  appSessions : Arena (AppSession σ ε)
  udpPool : SessionTable

/-- A packet with what the call takes from its surroundings: the time, which matching session
the lookup finds, and which free objects the pools hand out. An object with a number too large
is not there. -/
structure Delivery (ε : Type*) where
  arrival : UdpArrival
  env : ε
  now : ℕ
  found : ℕ
  sessionPick : ℕ
  requestPick : ℕ
  requestRetry : ℕ

def SessionTable.matching (p : SessionTable) (pkt : PacketUdp) : List ℕ :=
  p.linked.filter fun e => saUdpSessionEntryEqual (p.mem e).peers pkt

/-- `ch_udp_session_pool_entry_find`. -/
def SessionTable.find (p : SessionTable) (pkt : PacketUdp) (found now : ℕ) :
    Option ℕ × SessionTable :=
  match (p.matching pkt)[found]? with
  | none => (none, p)
  | some e =>
    (some e, { p with mem := Function.update p.mem e { p.mem e with lastTime := now } })

/-- `ch_udp_session_init` on the object `e`. -/
def SessionTable.init (p : SessionTable) (e : ℕ) (d : Delivery ε) (i sid : ℕ) : SessionTable :=
  { p with
    mem := Function.update p.mem e
      { peers := udpPeersInit (p.mem e).peers d.arrival.pkt
        tallies := endpointTalliesInit d.arrival
        sessionId := sid
        appSession := i
        lastTime := d.now }
    ep := p.ep.erase e
    linked := e :: p.linked }

/-- `tbl_entry_free`. -/
def SessionTable.free (p : SessionTable) (e : ℕ) : SessionTable :=
  { p with linked := p.linked.erase e, ep := p.ep ++ [e] }

/-- `_udp_session_out` reads the application session. -/
def udpSessionOut (h : SessionHandler σ ε) (e : ℕ) : Option (AppSession σ ε) :=
  h.appSessions.cell (h.udpPool.mem e).appSession

def udpSessionEnd (h : SessionHandler σ ε) (e : ℕ) : Option (SessionHandler σ ε) := do
  let appSessions ← appSessionFin h.appSessions (h.udpPool.mem e).appSession
  some ⟨appSessions, h.udpPool.free e⟩

/-- The end of `_udp_app_pkt_handle`, after the application has answered. -/
def udpAppPktEnd (h : SessionHandler σ ε) (e : ℕ) : ProcessRc → Option (SessionHandler σ ε)
  | .continue => some h
  | .done => do
    let _ ← udpSessionOut h e
    udpSessionEnd h e
  | .err => udpSessionEnd h e

def udpAppPktHandle (h : SessionHandler σ ε) (e : ℕ) (d : Delivery ε) :
    Option (SessionHandler σ ε) := do
  let i := (h.udpPool.mem e).appSession
  let s ← h.appSessions.cell i
  let (rc, data) := s.packetProcess d.arrival.pkt d.env
  let appSessions ← h.appSessions.write i { s with data := data }
  udpAppPktEnd { h with appSessions := appSessions } e rc

/-- `ch_udp_session_update`. -/
def SessionTable.update (p : SessionTable) (e : ℕ) (direct : SessionDirect) (a : UdpArrival) :
    SessionTable :=
  { p with
    mem := Function.update p.mem e
      { p.mem e with tallies := (p.mem e).tallies.update direct a } }

def udpSessionPacketHandle (h : SessionHandler σ ε) (e : ℕ) (d : Delivery ε) (isNewCreated : Bool) :
    Option (SessionHandler σ ε) :=
  match if isNewCreated then some .req else udpEndpointGet (h.udpPool.mem e).peers
    d.arrival.pkt with
  | none => some h
  | some direct =>
    udpAppPktHandle { h with udpPool := h.udpPool.update e direct d.arrival } e d

/-- `_create_udp_session_and_process` for the application session `i`. -/
def createUdpSessionAndProcess (h : SessionHandler σ ε) (i sid : ℕ) (d : Delivery ε) :
    Option (SessionHandler σ ε) :=
  match h.udpPool.ep[d.sessionPick]? with
  | none => some h
  | some e => udpSessionPacketHandle { h with udpPool := h.udpPool.init e d i sid } e d true

/-- `ch_udp_session_request_handler_t`. An entry of the list of pending requests refers to the
application session; the addresses it keeps are read nowhere. -/
structure RequestHandler (σ ε : Type*) where
  appPool : List (UdpApp σ ε)
  shandler : SessionHandler σ ε
  reqPool : Plist ℕ
  curSessionId : ℕ

/-- `_udp_session_request_timeout_cb`. -/
def requestTimeoutCb (i : ℕ) (h : SessionHandler σ ε) : Option (SessionHandler σ ε) :=
  (appSessionFin h.appSessions i).map fun appSessions => { h with appSessions := appSessions }

/-- `_udp_session_request_entry_equal`. -/
def requestEntryEqual (h : SessionHandler σ ε) (pkt : PacketUdp) (i : ℕ) : Option Bool :=
  (h.appSessions.cell i).map fun s => s.app.requestSessionEqual s.data pkt

/-- `ch_udp_app_session_request_process` for the application session `i`. -/
def udpRequestProcess (h : SessionHandler σ ε) (i : ℕ) (d : Delivery ε) :
    Option (ReqSessionRc × SessionHandler σ ε) :=
  match h.appSessions.cell i with
  | none => none
  | some s =>
    match s.requestProcess d.arrival.pkt d.env with
    | none => none
    | some (rc, data) =>
      (h.appSessions.write i { s with data := data }).map fun appSessions =>
        (rc, { h with appSessions := appSessions })

def RequestHandler.nextSid (w : RequestHandler σ ε) : ℕ := add 64 w.curSessionId 1

def sidOf (sid : ℕ) : ℕ := sid % (2 ^ 64 - 1)

/-- What a packet does to the pending request `r` that it matches. -/
def pendingRequest (w : RequestHandler σ ε) (r : ℕ) (d : Delivery ε) :
    Option (RequestHandler σ ε) := do
  let i := (w.reqPool.mem r).app
  let (rc, h) ← udpRequestProcess w.shandler i d
  match rc with
  | .continue => some { w with shandler := h }
  | .done => do
    let h ← createUdpSessionAndProcess h i (sidOf w.nextSid) d
    some { w with shandler := h, reqPool := w.reqPool.free r, curSessionId := w.nextSid }
  | .error => some { w with shandler := h, reqPool := w.reqPool.free r }

/-- A new application session `s` waits for its request, or gets a UDP session at once. -/
def newAppSession (w : RequestHandler σ ε) (s : AppSession σ ε) (d : Delivery ε) :
    Option (RequestHandler σ ε) :=
  let i := w.shandler.appSessions.next
  let h := { w.shandler with appSessions := w.shandler.appSessions.alloc s }
  if s.app.processRequestSession.isSome then
    match plistEntryCreate requestTimeoutCb w.reqPool h d.requestPick d.requestRetry d.now with
    | none => none
    | some (none, l, h) => some { w with shandler := h, reqPool := l }
    | some (some r, l, h) => some { w with shandler := h, reqPool := l.setApp r i }
  else do
    let h ← createUdpSessionAndProcess h i (sidOf w.nextSid) d
    some { w with shandler := h, curSessionId := w.nextSid }

/-- `ch_udp_session_request_packet_handle` for a packet without a UDP session. -/
def requestHandle (w : RequestHandler σ ε) (d : Delivery ε) : Option (RequestHandler σ ε) :=
  match plistEntryFind (requestEntryEqual w.shandler d.arrival.pkt) w.reqPool d.now with
  | none => none
  | some (some r, l) => pendingRequest { w with reqPool := l } r d
  | some (none, l) =>
    match appSessionCreate w.appPool d.arrival.pkt d.env with
    | none => some { w with reqPool := l }
    | some s => newAppSession { w with reqPool := l } s d

/-- `ch_udp_session_request_packet_handle`. -/
def requestPacketHandle (w : RequestHandler σ ε) (d : Delivery ε) : Option (RequestHandler σ ε) :=
  match w.shandler.udpPool.find d.arrival.pkt d.found d.now with
  | (none, _) => requestHandle w d
  | (some e, p) => do
    let h ← udpSessionPacketHandle { w.shandler with udpPool := p } e d false
    some { w with shandler := h }

/-- The idle time of `_entry_is_timeout` for the table of UDP sessions. -/
def SessionTable.isIdle (p : SessionTable) (curTime e : ℕ) : Bool :=
  p.entryTimeout < sub 64 curTime (p.mem e).lastTime

/-- `_watch_ptable`, when the ring is empty: the idle sessions among `order` are put on it. -/
def SessionTable.watch (p : SessionTable) (curTime : ℕ) (order : List ℕ) : SessionTable :=
  if p.timeoutEntries = [] then
    { p with timeoutEntries := order.dedup.filter fun e => e ∈ p.linked ∧ p.isIdle curTime e }
  else p

def SessionTable.dequeue (p : SessionTable) : SessionTable :=
  match p.timeoutEntries with
  | [] => p
  | e :: ring => { p with timeoutEntries := ring, taken := some e }

/-- `tbl_entry_free` with `_udp_session_timeout_cb`. -/
def udpSessionTimeout (h : SessionHandler σ ε) (e : ℕ) : Option (SessionHandler σ ε) := do
  let _ ← udpSessionOut h e
  udpSessionEnd { h with udpPool := { h.udpPool with taken := none } } e

/-- What happens in the task: a packet, the timeout of pending requests, and the two steps of
the drain of the timeout ring; and in the watcher. -/
inductive TaskEvent (ε : Type*)
  | packet (d : Delivery ε)
  | requestTimeouts (curTime : ℕ)
  | watch (curTime : ℕ) (order : List ℕ)
  | dequeue
  | sessionTimeout

def taskStep (w : RequestHandler σ ε) : TaskEvent ε → Option (RequestHandler σ ε)
  | .packet d => if w.shandler.udpPool.taken.isSome then some w else requestPacketHandle w d
  | .requestTimeouts curTime =>
    if w.shandler.udpPool.taken.isSome then some w
    else
      (plistEntriesTimeoutFree requestTimeoutCb w.reqPool w.shandler curTime).map
        fun r => { w with shandler := r.2, reqPool := r.1 }
  | .watch curTime order =>
    some { w with shandler.udpPool := w.shandler.udpPool.watch curTime order }
  | .dequeue =>
    if w.shandler.udpPool.taken.isSome then some w
    else some { w with shandler.udpPool := w.shandler.udpPool.dequeue }
  | .sessionTimeout =>
    match w.shandler.udpPool.taken with
    | none => some w
    | some e => (udpSessionTimeout w.shandler e).map fun h => { w with shandler := h }

def runTask (w : RequestHandler σ ε) : List (TaskEvent ε) → Option (RequestHandler σ ε)
  | [] => some w
  | ev :: evs => (taskStep w ev).bind fun w => runTask w evs

/-- A task before its first packet, with the objects of its two pools. -/
structure TaskConfig (σ ε : Type*) where
  appPool : List (UdpApp σ ε)
  sessionMem : ℕ → SessionEntry
  sessions : List ℕ
  sessionTimeout : ℕ
  requestMem : ℕ → PlistEntry ℕ
  requests : List ℕ
  requestTimeout : ℕ
  startTime : ℕ
  sessions_nodup : sessions.Nodup
  requests_nodup : requests.Nodup

def TaskConfig.create (c : TaskConfig σ ε) : RequestHandler σ ε where
  appPool := c.appPool
  shandler :=
    { appSessions := Arena.empty
      udpPool :=
        { mem := c.sessionMem, ep := c.sessions, linked := [], timeoutEntries := [], taken := none
          entryTimeout := c.sessionTimeout } }
  reqPool := plistCreate c.requests c.requestMem c.requestTimeout c.startTime
  curSessionId := 0

end CloudHands.Udp

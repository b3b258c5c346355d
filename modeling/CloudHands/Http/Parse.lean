import CloudHands.Http.Session

/-!
# The request and response parsers

`tcp/app/http/do_http_parse.c` over the session entry of `ch_http_session_entry.[ch]`. The
request parser fills the current request and appends it to the pending ones when it is
complete; the response parser always works on the first pending request, which is what
`cur_res` points at once it is set, and takes it off the list when the response is done.
Both read lines and bodies from the remaining data of their direction followed by the new
piece. After `PARSE_BREAK` the connection is closed and nothing more is parsed.
-/

namespace CloudHands.Http

open Lib

/-- `_do_is_accept`: the filter engine's decision on a session at the end of the headers of
one direction. -/
structure App where
  accept : Dir → HttpSession → Bool

inductive Verdict
  | done
  | continue
  | break
deriving DecidableEq

inductive LineResult
  | ok (s : HttpSession)
  | fail (s : HttpSession)

/-- `_http_request_line_parse`. -/
def requestLineHandle (s : HttpSession) (raw : List UInt8) : LineResult :=
  match requestLineParse raw with
  | none => .fail s
  | some r =>
    let s := requestLineSet s raw r
    .ok { s with parsePhase := if s.httpVersion = 9 then .resBody else .reqHeader }

/-- `_http_status_line_parse`. -/
def statusLineHandle (s : HttpSession) (raw : List UInt8) : LineResult :=
  match statusLineParse raw with
  | none => .fail s
  | some status => .ok { s with parsePhase := .resHeader, statusCode := status.code }

def headerLineHandle (app : App) (dir : Dir) (s : HttpSession) (raw : List UInt8) : LineResult :=
  if lineLen raw = 0 then
    let s := headerEndStateSet s dir
    if app.accept dir s then .ok s else .fail { s with isPass := true }
  else
    match headerLineParse raw with
    | none => .fail s
    | some header => .ok (headerAdd s raw header dir)

def lineHandle (app : App) (dir : Dir) (s : HttpSession) (raw : List UInt8) : LineResult :=
  if s.parsePhase = startPhase dir then
    match dir with
    | .request => requestLineHandle s raw
    | .response => statusLineHandle s raw
  else headerLineHandle app dir s raw

inductive StepResult
  | wait
  | fail (s : HttpSession)
  | more (s : HttpSession) (rest : List UInt8)

def setSink (s : HttpSession) (dir : Dir) (sink : ChunkSink) : HttpSession :=
  (s.setHeaders { s.headers dir with contentLengthN := sink.contentLengthN } dir).setBody
    ⟨sink.content, some sink.ctx⟩ dir

def getSink (s : HttpSession) (dir : Dir) : ChunkSink :=
  let body := (s.body dir).getD {}
  ⟨body.chunk.getD Chunked.init, body.content, (s.headers dir).contentLengthN⟩

def chunkedEnd (s : HttpSession) (dir : Dir) : SinkEnd → StepResult
  | .again sink => .more (setSink s dir sink) []
  | .done sink rest => .more (bodyParseStateSet (setSink s dir sink) dir) rest
  | .invalid content n => .fail (setSink s dir ⟨(getSink s dir).ctx, content, n⟩)

/-- `_http_body_direct_append`: the whole rest of the piece goes into the body. -/
def bodyDirectAppend (s : HttpSession) (dir : Dir) (din : List UInt8) : HttpSession :=
  let body := (s.body dir).getD {}
  let content := body.content ++ din
  let s := s.setBody { body with content := content } dir
  if (s.headers dir).contentLengthN ≤ content.length then bodyParseStateSet s dir else s

/-- `_http_body_parse`, none when the loop over the chunks does not come to an end. -/
def bodyParse (s : HttpSession) (dir : Dir) (din : List UInt8) : Option StepResult :=
  if (s.headers dir).chunked then (chunkedBodyParse (getSink s dir) din).map (chunkedEnd s dir)
  else some (.more (bodyDirectAppend s dir din) [])

def phaseStep (app : App) (dir : Dir) (s : HttpSession) (din : List UInt8) : Option StepResult :=
  if s.parsePhase = bodyPhase dir then bodyParse s dir din
  else
    match lineRead din with
    | none => some .wait
    | some (raw, rest) =>
      match lineHandle app dir s raw with
      | .ok s' => some (.more s' rest)
      | .fail s' => some (.fail s')

structure Entry where
  reqs : List HttpSession := []
  curReq : Option HttpSession := none
  reqRemain : List UInt8 := []
  resRemain : List UInt8 := []
  stored : List HttpSession := []
deriving DecidableEq

/-- The request of a session is complete: `parse_phase > PARSE_PHASE_REQ_BODY`. -/
def requestDone (s : HttpSession) : Bool :=
  match s.parsePhase with
  | .reqLine | .reqHeader | .reqBody => false
  | _ => true

structure ReqLoop where
  reqs : List HttpSession
  session : HttpSession
  din : List UInt8

structure ReqEnd where
  verdict : Verdict
  reqs : List HttpSession
  curReq : Option HttpSession
  remain : List UInt8

/-- One pass of the loop of `do_http_request_parse`. What is left of the input at a break
is never read. -/
def requestIter (app : App) (st : ReqLoop) : Iter ReqLoop ReqEnd :=
  if st.din = [] then
    if requestDone st.session then .leave ⟨.continue, st.reqs ++ [st.session], none, []⟩
    else .leave ⟨.continue, st.reqs, some st.session, []⟩
  else if requestDone st.session then .next ⟨st.reqs ++ [st.session], {}, st.din⟩
  else
    match phaseStep app .request st.session st.din with
    | none => .next st
    | some .wait => .leave ⟨.continue, st.reqs, some st.session, st.din⟩
    | some (.fail s) => .leave ⟨.break, st.reqs, some s, []⟩
    | some (.more s rest) => .next ⟨st.reqs, s, rest⟩

def requestStart (e : Entry) (data : List UInt8) : ReqLoop :=
  ⟨e.reqs, e.curReq.getD {}, readPrefare e.reqRemain data⟩

def requestFuel (st : ReqLoop) : ℕ := 2 * st.din.length + 2

/-- `do_http_request_parse`. -/
def requestParse (app : App) (e : Entry) (data : List UInt8) : Option (Verdict × Entry) :=
  let start := requestStart e data
  (loop (requestIter app) (requestFuel start) start).map fun r =>
    (r.verdict, { e with reqs := r.reqs, curReq := r.curReq, reqRemain := r.remain })

/-- `_http_session_store`. -/
def sessionStore (stored : List HttpSession) (s : HttpSession) : List HttpSession :=
  if s.isPass then stored else stored ++ [s]

structure ResLoop where
  reqs : List HttpSession
  stored : List HttpSession
  din : List UInt8

structure ResEnd where
  verdict : Verdict
  reqs : List HttpSession
  stored : List HttpSession
  remain : List UInt8

/-- One pass of the loop of `do_http_response_parse`, which breaks off when there is no
request to respond to. -/
def responseIter (app : App) (st : ResLoop) : Iter ResLoop ResEnd :=
  match st.reqs with
  | [] => .leave ⟨.break, [], st.stored, []⟩
  | s :: pending =>
    if st.din = [] then
      if s.parsePhase = .done then
        .leave ⟨if isKeepalive s then .continue else .done, pending, sessionStore st.stored s, []⟩
      else .leave ⟨.continue, s :: pending, st.stored, []⟩
    else
      match s.parsePhase with
      | .done => .next ⟨pending, sessionStore st.stored s, st.din⟩
      | .statusLine | .resHeader | .resBody =>
        match phaseStep app .response s st.din with
        | none => .next st
        | some .wait => .leave ⟨.continue, s :: pending, st.stored, st.din⟩
        | some (.fail s') => .leave ⟨.break, s' :: pending, st.stored, []⟩
        | some (.more s' rest) => .next ⟨s' :: pending, st.stored, rest⟩
      | _ => .next st

def responseStart (e : Entry) (data : List UInt8) : ResLoop :=
  ⟨e.reqs, e.stored, readPrefare e.resRemain data⟩

def responseFuel (st : ResLoop) : ℕ := st.din.length + st.reqs.length + 1

/-- `do_http_response_parse`. -/
def responseParse (app : App) (e : Entry) (data : List UInt8) : Option (Verdict × Entry) :=
  let start := responseStart e data
  (loop (responseIter app) (responseFuel start) start).map fun r =>
    (r.verdict, { e with reqs := r.reqs, stored := r.stored, resRemain := r.remain })

/-- A piece of the stream of one direction; the session handler hands over no empty ones. -/
structure Piece where
  dir : Dir
  data : List UInt8
  nonempty : data ≠ []

inductive Conn
  | running (e : Entry) (reqVerdict resVerdict : Verdict)
  | closed (requests : ℕ) (stored : List HttpSession)
deriving DecidableEq

def Conn.init : Conn := .running {} .continue .continue

def Conn.close (e : Entry) : Conn := .closed (e.reqs.length + e.stored.length) e.stored

def Conn.stored : Conn → List HttpSession
  | .running e _ _ => e.stored
  | .closed _ stored => stored

def Conn.verdict : Conn → Dir → Verdict
  | .running _ v _, .request => v
  | .running _ _ v, .response => v
  | .closed _ _, _ => .break

def feed (app : App) (c : Conn) (piece : Piece) : Option Conn :=
  match c with
  | .closed n stored => some (.closed n stored)
  | .running e reqVerdict resVerdict =>
    match piece.dir with
    | .request =>
      (requestParse app e piece.data).map fun r =>
        if r.1 = .break then .close r.2 else .running r.2 r.1 resVerdict
    | .response =>
      (responseParse app e piece.data).map fun r =>
        if r.1 = .break then .close r.2 else .running r.2 reqVerdict r.1

def run (app : App) (pieces : List Piece) : Option Conn := pieces.foldlM (feed app) Conn.init

end CloudHands.Http

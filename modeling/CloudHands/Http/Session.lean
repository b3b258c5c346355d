import CloudHands.Lib.Decimal
import CloudHands.Http.Chunked

/-!
# The HTTP session

`tcp/app/http/ch_http_session.[ch]` and `ch_http_session_body.[ch]`: one request with its
response, filled line by line. The header lists keep the last line first. A body is the
bytes written to its file; the texts of a line are cut at a null byte as `ch_pstrndup`
cuts them.
-/

namespace CloudHands.Http

open Lib

/-- The argument `is_req` of the source. -/
inductive Dir
  | request
  | response
deriving DecidableEq

inductive Phase
  | reqLine
  | reqHeader
  | reqBody
  | statusLine
  | resHeader
  | resBody
  | done
deriving DecidableEq

inductive ConnectionType
  | close
  | keepAlive
deriving DecidableEq

structure Headers where
  headers : List (List UInt8 × List UInt8) := []
  contentLengthN : ℕ := 0
  connectionType : ConnectionType := .close
  chunked : Bool := false
deriving DecidableEq

structure Body where
  content : List UInt8 := []
  chunk : Option Chunked := none
deriving DecidableEq

/-- `ch_http_session_t` as `ch_http_session_create` leaves it. -/
structure HttpSession where
  headersIn : Headers := {}
  headersOut : Headers := {}
  reqBody : Option Body := none
  resBody : Option Body := none
  parsePhase : Phase := .reqLine
  httpVersion : ℕ := 1001
  method : Option (List UInt8) := none
  uri : Option (List UInt8) := none
  host : Option (List UInt8) := none
  userAgent : Option (List UInt8) := none
  statusCode : ℕ := 0
  isPass : Bool := false
deriving DecidableEq

namespace HttpSession

def headers (s : HttpSession) : Dir → Headers
  | .request => s.headersIn
  | .response => s.headersOut

def body (s : HttpSession) : Dir → Option Body
  | .request => s.reqBody
  | .response => s.resBody

def setHeaders (s : HttpSession) (h : Headers) : Dir → HttpSession
  | .request => { s with headersIn := h }
  | .response => { s with headersOut := h }

def setBody (s : HttpSession) (b : Body) : Dir → HttpSession
  | .request => { s with reqBody := some b }
  | .response => { s with resBody := some b }

@[simp] theorem body_setBody (s : HttpSession) (b : Body) (dir : Dir) :
    (s.setBody b dir).body dir = some b := by
  cases dir <;> rfl

@[simp] theorem headers_setBody (s : HttpSession) (b : Body) (dir dir' : Dir) :
    (s.setBody b dir).headers dir' = s.headers dir' := by
  cases dir <;> cases dir' <;> rfl

@[simp] theorem parsePhase_setBody (s : HttpSession) (b : Body) (dir : Dir) :
    (s.setBody b dir).parsePhase = s.parsePhase := by
  cases dir <;> rfl

@[simp] theorem headers_setHeaders (s : HttpSession) (h : Headers) (dir : Dir) :
    (s.setHeaders h dir).headers dir = h := by
  cases dir <;> rfl

@[simp] theorem body_setHeaders (s : HttpSession) (h : Headers) (dir dir' : Dir) :
    (s.setHeaders h dir).body dir' = s.body dir' := by
  cases dir <;> cases dir' <;> rfl

@[simp] theorem parsePhase_setHeaders (s : HttpSession) (h : Headers) (dir : Dir) :
    (s.setHeaders h dir).parsePhase = s.parsePhase := by
  cases dir <;> rfl

@[simp] theorem setBody_setBody (s : HttpSession) (b b' : Body) (dir : Dir) :
    (s.setBody b dir).setBody b' dir = s.setBody b' dir := by
  cases dir <;> rfl

@[simp] theorem setHeaders_setHeaders (s : HttpSession) (h h' : Headers) (dir : Dir) :
    (s.setHeaders h dir).setHeaders h' dir = s.setHeaders h' dir := by
  cases dir <;> rfl

end HttpSession

/-- `HTTP_STRNDUP` on two positions of a line. -/
def strndup (raw : List UInt8) (start stop : Option ℕ) (incr : ℕ) : List UInt8 :=
  match start, stop with
  | some a, some b =>
    if a = b then [] else ((raw.drop a).take (b - a + incr)).takeWhile (· ≠ 0)
  | _, _ => []

def toLower (c : UInt8) : UInt8 := if 65 ≤ c ∧ c ≤ 90 then c + 32 else c

/-- `strcasecmp(s, t) == 0`. -/
def strcaseEq (s : List UInt8) (t : String) : Bool := s.map toLower = (bytesOf t).map toLower

/-- `strncasecmp(s, t, n) == 0`. -/
def strncaseEq (s : List UInt8) (t : String) (n : ℕ) : Bool :=
  (s.take n).map toLower = ((bytesOf t).take n).map toLower

/-- `ch_http_session_request_line_set`. -/
def requestLineSet (s : HttpSession) (raw : List UInt8) (r : RequestLine) : HttpSession :=
  { s with
    method := some (strndup raw r.requestStart r.methodEnd 1)
    httpVersion := r.httpMajor * 1000 + r.httpMinor
    uri := some (strndup raw r.uriStart r.uriEnd 0) }

/-- The value of a connection header: `strncasecmp` is nonzero where the texts differ, so
every value but one that begins like `close` leaves the connection closing. -/
def connectionTypeSet (h : Headers) (val : List UInt8) : Headers :=
  if !strncaseEq val "close" 4 then { h with connectionType := .close }
  else if !strncaseEq val "keep-alive" 9 then { h with connectionType := .keepAlive }
  else h

/-- What `_http_request_header_index_set` and `_http_response_header_index_set` have in
common. -/
def headerIndexSet (h : Headers) (key val : List UInt8) : Headers :=
  if strcaseEq key "Connection" then connectionTypeSet h val
  else if strcaseEq key "Content-Length" then { h with contentLengthN := strtoul (val.map chr) }
  else if strcaseEq key "Transfer-Encoding" then
    if strncaseEq val "chunked" 7 then { h with chunked := true } else h
  else h

def requestHeaderIndexSet (s : HttpSession) (key val : List UInt8) : HttpSession :=
  if strcaseEq key "Host" then { s with host := some val }
  else if strcaseEq key "User-Agent" then { s with userAgent := some val }
  else s

/-- `ch_http_session_header_add`. -/
def headerAdd (s : HttpSession) (raw : List UInt8) (header : HeaderLine) (dir : Dir) :
    HttpSession :=
  let key := strndup raw header.headerNameStart header.headerNameEnd 0
  let val := strndup raw header.headerStart header.headerEnd 0
  let h := s.headers dir
  let s := s.setHeaders (headerIndexSet { h with headers := (key, val) :: h.headers } key val) dir
  match dir with
  | .request => requestHeaderIndexSet s key val
  | .response => s

def hasBody (s : HttpSession) (dir : Dir) : Bool :=
  decide (0 < (s.headers dir).contentLengthN) || (s.headers dir).chunked

def startPhase : Dir → Phase
  | .request => .reqLine
  | .response => .statusLine

def headerPhase : Dir → Phase
  | .request => .reqHeader
  | .response => .resHeader

def bodyPhase : Dir → Phase
  | .request => .reqBody
  | .response => .resBody

def endPhase : Dir → Phase
  | .request => .statusLine
  | .response => .done

def headerEndStateSet (s : HttpSession) (dir : Dir) : HttpSession :=
  { s with parsePhase := if hasBody s dir then bodyPhase dir else endPhase dir }

/-- `HTTP_BODY_PARSE_STATE_SET`. -/
def bodyParseStateSet (s : HttpSession) (dir : Dir) : HttpSession :=
  { s with parsePhase := endPhase dir }

/-- `is_http_session_keepalive`. -/
def isKeepalive (s : HttpSession) : Bool :=
  if s.httpVersion ≤ 1000 then false
  else s.headersIn.connectionType = .keepAlive && s.headersOut.connectionType = .keepAlive

end CloudHands.Http

import CloudHands.Http.DataInput

/-!
# The line parsers

`tcp/app/http/ch_http_data_parse.c`: the request line, header line and status line parsers.
Each one walks a raw line with a state machine that records positions in the line; a line
that ends before its machine is done is refused like an invalid one. Of the positions only
those a session is filled from are kept.
-/

namespace CloudHands.Http

def chr (b : UInt8) : Char := Char.ofNat b.toNat

def bytesOf (s : String) : List UInt8 := s.toList.map fun c => c.toNat.toUInt8

def isDigit (ch : UInt8) : Bool := 48 ≤ ch && ch ≤ 57

def digitValue (ch : UInt8) : ℕ := ch.toNat - 48

/-- The test on `ch | 0x20` for a letter. -/
def isLetter (ch : UInt8) : Bool := 97 ≤ (ch ||| 0x20) && (ch ||| 0x20) ≤ 122

def isMethodChar (ch : UInt8) : Bool := (65 ≤ ch && ch ≤ 90) || chr ch = '_'

inductive Scan (S L : Type)
  | next (state : S) (line : L)
  | done (line : L)
  | invalid

def scan {S L : Type} (step : ℕ → UInt8 → S → L → Scan S L) (p : ℕ) (state : S) (line : L) :
    List UInt8 → Option L
  | [] => none
  | ch :: rest =>
    match step p ch state line with
    | .next state' line' => scan step (p + 1) state' line' rest
    | .done line' => some line'
    | .invalid => none

inductive Method
  | get
  | head
  | post
  | put
  | delete
  | mkcol
  | copy
  | move
  | options
  | propfind
  | proppatch
  | lock
  | unlock
  | patch
  | trace
deriving DecidableEq

def methodNames : List (String × Method) :=
  [("GET", .get), ("PUT", .put), ("POST", .post), ("COPY", .copy), ("MOVE", .move),
    ("LOCK", .lock), ("HEAD", .head), ("MKCOL", .mkcol), ("PATCH", .patch), ("TRACE", .trace),
    ("DELETE", .delete), ("UNLOCK", .unlock), ("OPTIONS", .options), ("PROPFIND", .propfind),
    ("PROPPATCH", .proppatch)]

def methodOf (name : List UInt8) : Option Method :=
  (methodNames.find? fun entry => bytesOf entry.1 = name).map Prod.snd

def usual : List ℕ :=
  [0xffffdbfe, 0x7fff37d6, 0xffffffff, 0xffffffff, 0xffffffff, 0xffffffff, 0xffffffff, 0xffffffff]

def isUsual (ch : UInt8) : Bool := (usual.getD (ch.toNat / 32) 0).testBit (ch.toNat % 32)

structure RequestLine where
  requestStart : Option ℕ := none
  methodEnd : Option ℕ := none
  uriStart : Option ℕ := none
  uriEnd : Option ℕ := none
  schemaEnd : Option ℕ := none
  method : Option Method := none
  httpMajor : ℕ := 0
  httpMinor : ℕ := 0

inductive RequestState
  | start
  | method
  | spacesBeforeUri
  | schema
  | schemaSlash
  | schemaSlashSlash
  | hostStart
  | host
  | hostEnd
  | hostIpLiteral
  | port
  | hostHttp09
  | afterSlashInUri
  | checkUri
  | checkUriHttp09
  | uri
  | http09
  | httpH
  | httpHT
  | httpHTT
  | httpHTTP
  | firstMajorDigit
  | majorDigit
  | firstMinorDigit
  | minorDigit
  | spacesAfterDigit
  | almostDone

abbrev RequestScan := Scan RequestState RequestLine

/-- The branch on a blank or a line end behind the URI; `other` is what the state does at
any other character. -/
def afterUri (other : RequestScan) (ch : UInt8) (r : RequestLine) (here : RequestState) :
    RequestScan :=
  match chr ch with
  | ' ' => .next here r
  | '\r' => .next .almostDone { r with httpMinor := 9 }
  | '\n' => .done { r with httpMinor := 9 }
  | 'H' => .next .httpH r
  | _ => other

def hostEndStep (p : ℕ) (ch : UInt8) (r : RequestLine) : RequestScan :=
  match chr ch with
  | ':' => .next .port r
  | '/' => .next .afterSlashInUri { r with uriStart := some p }
  | ' ' =>
    .next .hostHttp09
      { r with uriStart := r.schemaEnd.map (· + 1), uriEnd := r.schemaEnd.map (· + 2) }
  | _ => .invalid

def hostStep (p : ℕ) (ch : UInt8) (r : RequestLine) : RequestScan :=
  if isLetter ch || isDigit ch || chr ch = '.' || chr ch = '-' then .next .host r
  else hostEndStep p ch r

def hostIpLiteralStep (ch : UInt8) (r : RequestLine) : RequestScan :=
  if isDigit ch || isLetter ch then .next .hostIpLiteral r
  else if chr ch = ']' then .next .hostEnd r
  else if ch ∈ bytesOf ":-._~!$&'()*+,;=" then .next .hostIpLiteral r
  else .invalid

def afterSlashInUriStep (p : ℕ) (ch : UInt8) (r : RequestLine) : RequestScan :=
  if isUsual ch then .next .checkUri r
  else
    match chr ch with
    | ' ' => .next .checkUriHttp09 { r with uriEnd := some p }
    | '\r' => .next .almostDone { r with uriEnd := some p, httpMinor := 9 }
    | '\n' => .done { r with uriEnd := some p, httpMinor := 9 }
    | '.' => .next .uri r
    | '%' => .next .uri r
    | '/' => .next .uri r
    | '?' => .next .uri r
    | '#' => .next .uri r
    | '+' => .next .afterSlashInUri r
    | '\x00' => .invalid
    | _ => .next .checkUri r

def checkUriStep (p : ℕ) (ch : UInt8) (r : RequestLine) : RequestScan :=
  if isUsual ch then .next .checkUri r
  else
    match chr ch with
    | '/' => .next .afterSlashInUri r
    | '.' => .next .checkUri r
    | ' ' => .next .checkUriHttp09 { r with uriEnd := some p }
    | '\r' => .next .almostDone { r with uriEnd := some p, httpMinor := 9 }
    | '\n' => .done { r with uriEnd := some p, httpMinor := 9 }
    | '%' => .next .uri r
    | '?' => .next .uri r
    | '#' => .next .uri r
    | '+' => .next .checkUri r
    | '\x00' => .invalid
    | _ => .next .checkUri r

def uriStep (p : ℕ) (ch : UInt8) (r : RequestLine) : RequestScan :=
  if isUsual ch then .next .uri r
  else
    match chr ch with
    | ' ' => .next .http09 { r with uriEnd := some p }
    | '\r' => .next .almostDone { r with uriEnd := some p, httpMinor := 9 }
    | '\n' => .done { r with uriEnd := some p, httpMinor := 9 }
    | '#' => .next .uri r
    | '\x00' => .invalid
    | _ => .next .uri r

def expect {S L : Type} (c : Char) (state : S) (ch : UInt8) (line : L) : Scan S L :=
  if chr ch = c then .next state line else .invalid

def requestStep (raw : List UInt8) (p : ℕ) (ch : UInt8) (state : RequestState) (r : RequestLine) :
    RequestScan :=
  match state with
  | .start =>
    let r := { r with requestStart := some p }
    if ch = CR ∨ ch = LF then .next .start r
    else if isMethodChar ch then .next .method r
    else .invalid
  | .method =>
    if chr ch = ' ' then
      let m := r.requestStart.getD 0
      let r := { r with methodEnd := some (p - 1) }
      match methodOf ((raw.drop m).take (p - m)) with
      | some name => .next .spacesBeforeUri { r with method := some name }
      | none => .next .spacesBeforeUri r
    else if isMethodChar ch then .next .method r
    else .invalid
  | .spacesBeforeUri =>
    if chr ch = '/' then .next .afterSlashInUri { r with uriStart := some p }
    else if isLetter ch then .next .schema r
    else if chr ch = ' ' then .next .spacesBeforeUri r
    else .invalid
  | .schema =>
    if isLetter ch then .next .schema r
    else if chr ch = ':' then .next .schemaSlash { r with schemaEnd := some p }
    else .invalid
  | .schemaSlash => expect '/' .schemaSlashSlash ch r
  | .schemaSlashSlash => expect '/' .hostStart ch r
  | .hostStart => if chr ch = '[' then .next .hostIpLiteral r else hostStep p ch r
  | .host => hostStep p ch r
  | .hostEnd => hostEndStep p ch r
  | .hostIpLiteral => hostIpLiteralStep ch r
  | .port =>
    if isDigit ch then .next .port r
    else
      match chr ch with
      | '/' => .next .afterSlashInUri { r with uriStart := some p }
      | ' ' =>
        .next .hostHttp09
          { r with uriStart := r.schemaEnd.map (· + 1), uriEnd := r.schemaEnd.map (· + 2) }
      | _ => .invalid
  | .hostHttp09 => afterUri .invalid ch r .hostHttp09
  | .afterSlashInUri => afterSlashInUriStep p ch r
  | .checkUri => checkUriStep p ch r
  -- `p--`: the character is read again in the state it falls back to
  | .checkUriHttp09 => afterUri (checkUriStep p ch r) ch r .checkUriHttp09
  | .uri => uriStep p ch r
  | .http09 => afterUri (uriStep p ch r) ch r .http09
  | .httpH => expect 'T' .httpHT ch r
  | .httpHT => expect 'T' .httpHTT ch r
  | .httpHTT => expect 'P' .httpHTTP ch r
  | .httpHTTP => expect '/' .firstMajorDigit ch r
  | .firstMajorDigit =>
    if isDigit ch && chr ch ≠ '0' then .next .majorDigit { r with httpMajor := digitValue ch }
    else .invalid
  | .majorDigit =>
    if chr ch = '.' then .next .firstMinorDigit r
    else if !isDigit ch || r.httpMajor > 99 then .invalid
    else .next .majorDigit { r with httpMajor := r.httpMajor * 10 + digitValue ch }
  | .firstMinorDigit =>
    if isDigit ch then .next .minorDigit { r with httpMinor := digitValue ch } else .invalid
  | .minorDigit =>
    if ch = CR then .next .almostDone r
    else if ch = LF then .done r
    else if chr ch = ' ' then .next .spacesAfterDigit r
    else if !isDigit ch || r.httpMinor > 99 then .invalid
    else .next .minorDigit { r with httpMinor := r.httpMinor * 10 + digitValue ch }
  | .spacesAfterDigit =>
    match chr ch with
    | ' ' => .next .spacesAfterDigit r
    | '\r' => .next .almostDone r
    | '\n' => .done r
    | _ => .invalid
  | .almostDone => if ch = LF then .done r else .invalid

/-- `ch_http_request_line_parse`: none for every result other than `CH_OK`. -/
def requestLineParse (raw : List UInt8) : Option RequestLine :=
  match scan (requestStep raw) 0 .start {} raw with
  | none => none
  | some r =>
    if r.httpMajor * 1000 + r.httpMinor = 9 ∧ r.method ≠ some .get then none else some r

structure HeaderLine where
  headerNameStart : Option ℕ := none
  headerNameEnd : Option ℕ := none
  headerStart : Option ℕ := none
  headerEnd : Option ℕ := none

inductive HeaderState
  | start
  | name
  | spaceBeforeValue
  | value
  | spaceAfterValue
  | ignoreLine
  | almostDone
  | headerAlmostDone

/-- `CH_HTTP_PARSE_HEADER_DONE` is no header line either, so it ends like an invalid one. -/
def headerStep (raw : List UInt8) (p : ℕ) (ch : UInt8) (state : HeaderState) (h : HeaderLine) :
    Scan HeaderState HeaderLine :=
  match state with
  | .start =>
    let h := { h with headerNameStart := some p }
    match chr ch with
    | '\r' => .next .headerAlmostDone { h with headerEnd := some p }
    | '\n' => .invalid
    | '\x00' => .invalid
    | _ => .next .name h
  | .name =>
    if chr ch = ':' then .next .spaceBeforeValue { h with headerNameEnd := some p }
    else if ch = CR then
      .next .almostDone
        { h with headerNameEnd := some p, headerStart := some p, headerEnd := some p }
    else if ch = LF then
      .done { h with headerNameEnd := some p, headerStart := some p, headerEnd := some p }
    else if chr ch = '/' ∧ p - h.headerNameStart.getD 0 = 4 ∧
        (raw.drop (h.headerNameStart.getD 0)).take 4 = bytesOf "HTTP" then
      .next .ignoreLine h
    else if ch = 0 then .invalid
    else .next .name h
  | .spaceBeforeValue =>
    match chr ch with
    | ' ' => .next .spaceBeforeValue h
    | '\r' => .next .almostDone { h with headerStart := some p, headerEnd := some p }
    | '\n' => .done { h with headerStart := some p, headerEnd := some p }
    | '\x00' => .invalid
    | _ => .next .value { h with headerStart := some p }
  | .value =>
    match chr ch with
    | ' ' => .next .spaceAfterValue { h with headerEnd := some p }
    | '\r' => .next .almostDone { h with headerEnd := some p }
    | '\n' => .done { h with headerEnd := some p }
    | '\x00' => .invalid
    | _ => .next .value h
  | .spaceAfterValue =>
    match chr ch with
    | ' ' => .next .spaceAfterValue h
    | '\r' => .next .almostDone h
    | '\n' => .done h
    | '\x00' => .invalid
    | _ => .next .value h
  | .ignoreLine => if ch = LF then .next .start h else .next .ignoreLine h
  | .almostDone =>
    if ch = LF then .done h
    else if ch = CR then .next .almostDone h
    else .invalid
  | .headerAlmostDone => .invalid

/-- `ch_http_header_line_parse`: none for every result other than `CH_OK`. -/
def headerLineParse (raw : List UInt8) : Option HeaderLine :=
  scan (headerStep raw) 0 .start {} raw

structure StatusLine where
  code : ℕ := 0
  count : ℕ := 0
  httpMajor : ℕ := 0
  httpMinor : ℕ := 0

inductive StatusState
  | start
  | H
  | HT
  | HTT
  | HTTP
  | firstMajorDigit
  | majorDigit
  | firstMinorDigit
  | minorDigit
  | status
  | spaceAfterStatus
  | statusText
  | almostDone

def statusStep (ch : UInt8) (state : StatusState) (status : StatusLine) :
    Scan StatusState StatusLine :=
  match state with
  | .start => expect 'H' .H ch status
  | .H => expect 'T' .HT ch status
  | .HT => expect 'T' .HTT ch status
  | .HTT => expect 'P' .HTTP ch status
  | .HTTP => expect '/' .firstMajorDigit ch status
  | .firstMajorDigit =>
    if isDigit ch && chr ch ≠ '0' then
      .next .majorDigit { status with httpMajor := digitValue ch }
    else .invalid
  | .majorDigit =>
    if chr ch = '.' then .next .firstMinorDigit status
    else if !isDigit ch || status.httpMajor > 99 then .invalid
    else .next .majorDigit { status with httpMajor := status.httpMajor * 10 + digitValue ch }
  | .firstMinorDigit =>
    if isDigit ch then .next .minorDigit { status with httpMinor := digitValue ch } else .invalid
  | .minorDigit =>
    if chr ch = ' ' then .next .status status
    else if !isDigit ch || status.httpMinor > 99 then .invalid
    else .next .minorDigit { status with httpMinor := status.httpMinor * 10 + digitValue ch }
  | .status =>
    if chr ch = ' ' then .next .status status
    else if !isDigit ch then .invalid
    else
      let status := { status with
        code := status.code * 10 + digitValue ch
        count := status.count + 1 }
      if status.count = 3 then .next .spaceAfterStatus status else .next .status status
  | .spaceAfterStatus =>
    match chr ch with
    | ' ' => .next .statusText status
    | '.' => .next .statusText status
    | '\r' => .next .almostDone status
    | '\n' => .done status
    | _ => .invalid
  | .statusText =>
    match chr ch with
    | '\r' => .next .almostDone status
    | '\n' => .done status
    | _ => .next .statusText status
  | .almostDone => if ch = LF then .done status else .invalid

/-- `ch_http_status_line_parse`: none for every result other than `CH_OK`. -/
def statusLineParse (raw : List UInt8) : Option StatusLine :=
  scan (fun _ => statusStep) 0 .start {} raw

end CloudHands.Http

import CloudHands.Lib.Guarded
import CloudHands.Mail.Session

/-!
# MIME decoder

`ch_mail_decode_mime.c` under its default configuration. There is no result where the code would
write outside of a buffer or follow a null pointer. Allocations succeed. The tree of entities, the
counts and the anomaly flags are left out, since only the decoder's own log lines read them.
-/

namespace CloudHands.Mail

open Http

inductive MimeDecRetCode
  | ok
  | errData
  | errMem
  | errParse
deriving DecidableEq, Repr

inductive MimeStateFlag
  | headerReady
  | headerStarted
  | headerDone
  | bodyStarted
  | bodyEndBound
  | parseDone
  | parseError
deriving DecidableEq, Repr

/-- `MimeDecEntity`, with the content flags that are read. -/
structure MimeDecEntity where
  ctntTran : Option (List UInt8)
  ctntDisp : Option (List UInt8)
  ctntType : Option (List UInt8)
  isAttachment : Bool
  isBase64 : Bool
  isQP : Bool
  isText : Bool
  isHtml : Bool
  filename : List UInt8
deriving DecidableEq, Repr

def MimeDecEntity.empty : MimeDecEntity := ⟨none, none, none, false, false, false, false, false, []⟩

structure MimeDecStackNode where
  data : MimeDecEntity
  bdef : Option (List UInt8)
  isEncap : Bool
deriving DecidableEq, Repr

structure DataChunk where
  entity : MimeDecEntity
  bodyBegin : Bool
  bodyEnd : Bool
  bytes : List UInt8
deriving DecidableEq, Repr

/-- The callbacks of a decoder, over what `data` points to. -/
structure MimeCallbacks (σ : Type) where
  dataChunkProcessorFunc : DataChunk → σ → Option (σ × MimeDecRetCode)
  headerProcessorFunc : List UInt8 → List UInt8 → σ → Option σ

/-- `MimeDecParseState`. An empty value of a header is null. -/
structure MimeDecParseState (σ : Type) where
  stack : List MimeDecStackNode
  hname : Option (List UInt8)
  hvalue : List UInt8
  bvremain : List UInt8
  dataChunk : List UInt8
  stateFlag : MimeStateFlag
  foundChild : Bool
  bodyBegin : Bool
  bodyEnd : Bool
  data : σ

variable {σ : Type}

/-- `MimeDecInitParser`. -/
def mimeDecInit (data : σ) : MimeDecParseState σ :=
  ⟨[⟨.empty, none, false⟩], none, [], [], [], .headerReady, false, false, false, data⟩

def dataChunkSize : ℕ := 3072

def b64Block : ℕ := 4

def asciiBlock : ℕ := 3

def eol : List UInt8 := [CR, LF]

def maxLineLen : ℕ := 998

def headerValueDepth : ℕ := 2000

def boundaryBuf : ℕ := 256

/-- `FindBuffer`: where a text of at least one byte stands first, in any case of the letters. -/
def findBuffer (src find : List UInt8) : Option ℕ :=
  (List.range (src.length + 1 - find.length)).find? fun i =>
    ((src.drop i).take find.length).map toLower = find.map toLower

/-- `GetToken`, up to a zero byte. -/
def getToken (buf delims : List UInt8) : Option (List UInt8) :=
  let tok := ((buf.takeWhile (· ≠ 0)).dropWhile (· ∈ delims)).takeWhile (· ∉ delims)
  if tok = [] then none else some tok

/-- `FindMimeHeaderToken` with the quote as its end. -/
def findMimeHeaderToken (field searchStart : List UInt8) : Option (List UInt8) :=
  (findBuffer field searchStart).bind fun i =>
    getToken (field.drop (i + searchStart.length)) (bytesOf "\"")

namespace MimeDecParseState

/-- `PushStack` with a new entity. -/
def pushStack (s : MimeDecParseState σ) (isEncap : Bool) : MimeDecParseState σ :=
  { s with stack := ⟨.empty, none, isEncap⟩ :: s.stack }

def popStack (s : MimeDecParseState σ) : MimeDecParseState σ := { s with stack := s.stack.tail }

def mapTop (s : MimeDecParseState σ) (f : MimeDecEntity → MimeDecEntity) : MimeDecParseState σ :=
  { s with stack := s.stack.modifyHead fun node => { node with data := f node.data } }

/-- A write to `data_chunk`. -/
def appendChunk (s : MimeDecParseState σ) (bytes : List UInt8) : Option (MimeDecParseState σ) :=
  if s.dataChunk.length + bytes.length ≤ dataChunkSize then
    some { s with dataChunk := s.dataChunk ++ bytes }
  else none

end MimeDecParseState

section

variable (f : MimeCallbacks σ)

/-- `MimeDecFillField` of a name in lower case. -/
def fillField (entity : MimeDecEntity) (name value : List UInt8) : MimeDecEntity :=
  if name = bytesOf "content-type" then { entity with ctntType := some value }
  else if name = bytesOf "content-disposition" then { entity with ctntDisp := some value }
  else if name = bytesOf "content-transfer-encoding" then { entity with ctntTran := some value }
  else entity

/-- `StoreMimeHeader`. -/
def storeMimeHeader (s : MimeDecParseState σ) : Option (MimeDecParseState σ × MimeDecRetCode) :=
  if s.hvalue = [] then some ({ s with hname := none }, .ok)
  else
    let done := { s with hname := none, hvalue := [] }
    match s.hname with
    | none => some (done, .errParse)
    | some hname =>
      if s.stack = [] then some (done, .errData)
      else
        let name := hname.map toLower
        (f.headerProcessorFunc name s.hvalue s.data).map fun data =>
          ({ done.mapTop (fillField · name s.hvalue) with data := data }, .ok)

/-- `ProcessDecodedDataChunk`. -/
def processDecodedDataChunk (s : MimeDecParseState σ) :
    Option (MimeDecParseState σ × MimeDecRetCode) :=
  let done := { s with dataChunk := [], bodyBegin := false }
  match s.stack with
  | [] => some (done, .errData)
  | node :: _ =>
    (f.dataChunkProcessorFunc ⟨node.data, s.bodyBegin, s.bodyEnd, s.dataChunk⟩ s.data).map fun r =>
      ({ done with data := r.1 }, r.2)

def flushFull (s : MimeDecParseState σ) (ret : MimeDecRetCode) :
    Option (MimeDecParseState σ × MimeDecRetCode) :=
  if dataChunkSize - s.dataChunk.length < asciiBlock then processDecodedDataChunk f s
  else some (s, ret)

/-- `MimeDecodeBase64`, through a buffer of its own. -/
def mimeDecodeBase64 (src : List UInt8) : Option (List UInt8) :=
  let decoded := (decodeBase64 src).getD []
  if decoded.length ≤ dataChunkSize then some decoded else none

def decodeToChunk (s : MimeDecParseState σ) (ret : MimeDecRetCode) (src : List UInt8) :
    Option (MimeDecParseState σ × MimeDecRetCode) := do
  let decoded ← mimeDecodeBase64 src
  if decoded = [] then some (s, ret)
  else do
    let s ← s.appendChunk decoded
    flushFull f s ret

/-- `ProcessBase64Remainder`, with the number of bytes that it takes of the line. -/
def processBase64Remainder (s : MimeDecParseState σ) (buf : List UInt8) (force : Bool) :
    Option (MimeDecParseState σ × ℕ) := do
  let remainder := min (b64Block - s.bvremain.length) buf.length
  let r ← flushFull f { s with bvremain := s.bvremain ++ buf.take remainder } .ok
  let s := r.1
  if s.bvremain.length = b64Block ∨ force then
    if s.stack = [] then none
    else do
      let r ← decodeToChunk f s .ok s.bvremain
      some ({ r.1 with bvremain := [] }, remainder)
  else some (s, remainder)

/-- The loop of `ProcessBase64BodyLine`. -/
def base64Loop : ℕ → MimeDecParseState σ → MimeDecRetCode → List UInt8 →
    Option (MimeDecParseState σ × MimeDecRetCode)
  | 0, s, ret, _ => some (s, ret)
  | fuel + 1, s, ret, remaining =>
    if remaining = [] then some (s, ret)
    else
      let avail := (dataChunkSize - s.dataChunk.length) * b64Block / asciiBlock
      let tobuf := min avail remaining.length / 4 * 4
      if tobuf < b64Block then some (s, .errParse)
      else do
        let r ← decodeToChunk f s ret (remaining.take tobuf)
        base64Loop fuel r.1 r.2 (remaining.drop tobuf)

/-- `ProcessBase64BodyLine`. The length that is left is compared as an `int`. -/
def processBase64BodyLine (s : MimeDecParseState σ) (buf : List UInt8) :
    Option (MimeDecParseState σ × MimeDecRetCode) := do
  let r ← (if s.bvremain = [] then some (s, 0) else processBase64Remainder f s buf false)
  let s := r.1
  let left := buf.drop r.2
  if 0 < left.length ∧ left.length < 2 ^ 31 then
    let whole := left.length / b64Block * b64Block
    let s := if whole < left.length then { s with bvremain := left.drop whole } else s
    base64Loop f left.length s .ok (left.take whole)
  else some (s, .ok)

/-- `DecodeQPChar`. -/
def decodeQPChar (h : UInt8) : Option UInt8 :=
  if 48 ≤ h ∧ h ≤ 57 then some (h - 48)
  else if 65 ≤ h ∧ h ≤ 70 then some (h - 55)
  else none

def qpEscape : List UInt8 → Option UInt8
  | h1 :: h2 :: _ => (decodeQPChar h1).bind fun x => (decodeQPChar h2).map fun y => (x <<< 4) + y
  | _ => none

def qpUnit (c : UInt8) (rest : List UInt8) : List UInt8 × List UInt8 :=
  if c ≠ 61 then (c :: if rest = [] then eol else [], rest)
  else
    match qpEscape rest with
    | some val => (val :: if rest.drop 2 = [] then eol else [], rest.drop 2)
    | none => ([], rest)

/-- The loop of `ProcessQuotedPrintableBodyLine`. -/
def qpLoop : ℕ → MimeDecParseState σ → MimeDecRetCode → List UInt8 →
    Option (MimeDecParseState σ × MimeDecRetCode)
  | 0, s, ret, _ => some (s, ret)
  | _, s, ret, [] => some (s, ret)
  | fuel + 1, s, ret, c :: rest => do
    let s ← s.appendChunk (qpUnit c rest).1
    let r ← flushFull f s ret
    qpLoop fuel r.1 r.2 (qpUnit c rest).2

/-- The loop of `ProcessBodyLine` for content that is not decoded. -/
def plainLoop : ℕ → MimeDecParseState σ → MimeDecRetCode → List UInt8 →
    Option (MimeDecParseState σ × MimeDecRetCode)
  | 0, s, ret, _ => some (s, ret)
  | fuel + 1, s, ret, remaining =>
    if remaining = [] then some (s, ret)
    else
      let avail := dataChunkSize - s.dataChunk.length
      if avail < eol.length then none
      else
        let tobuf :=
          if remaining.length + eol.length < avail then remaining.length else avail - eol.length
        do
          let s ← s.appendChunk
            (remaining.take tobuf ++ if tobuf = remaining.length then eol else [])
          let r ← flushFull f s ret
          plainLoop fuel r.1 r.2 (remaining.drop tobuf)

/-- `ProcessBodyLine`. -/
def processBodyLine (s : MimeDecParseState σ) (buf : List UInt8) :
    Option (MimeDecParseState σ × MimeDecRetCode) :=
  match s.stack with
  | [] => none
  | node :: _ =>
    if node.data.isBase64 then processBase64BodyLine f s buf
    else if node.data.isQP then qpLoop f buf.length s .ok buf
    else plainLoop f buf.length s .ok buf

/-- `ProcessBodyComplete`. -/
def processBodyComplete (s : MimeDecParseState σ) :
    Option (MimeDecParseState σ × MimeDecRetCode) := do
  let s := { s with bodyEnd := true }
  let s ← (if s.bvremain = [] then some s else (processBase64Remainder f s [] true).map (·.1))
  let r ← processDecodedDataChunk f s
  some ({ r.1 with bodyBegin := false, bodyEnd := false }, r.2)

/-- `FindMimeHeaderStart`: the length of the name that the line starts with. -/
def findMimeHeaderStart (buf : List UInt8) : Option ℕ :=
  let name := buf.takeWhile fun c => c ≠ 58 ∧ 33 ≤ c ∧ c ≤ 126
  if name ≠ [] ∧ buf[name.length]? = some 58 then some name.length else none

def addDataValue (s : MimeDecParseState σ) (value : List UInt8) : MimeDecParseState σ :=
  { s with hvalue := s.hvalue ++ value.take (headerValueDepth - s.hvalue.length) }

def headerValue (buf : List UInt8) (hlen : ℕ) : List UInt8 :=
  (buf.drop (hlen + 1)).dropWhile (· = 32)

/-- `FindMimeHeader`. -/
def findMimeHeader (s : MimeDecParseState σ) (buf : List UInt8) :
    Option (MimeDecParseState σ × MimeDecRetCode) :=
  match findMimeHeaderStart buf with
  | some hlen => do
    let stored ← (if s.stateFlag = .headerStarted then storeMimeHeader f s else some (s, .ok))
    let started : MimeDecParseState σ := { stored.1 with stateFlag := .headerStarted }
    if stored.2 ≠ .ok then some (started, stored.2)
    else
      let named : MimeDecParseState σ := { started with hname := some (buf.take hlen) }
      if named.hvalue ≠ [] then some (named, .errData)
      else some (addDataValue named (headerValue buf hlen), .ok)
  | none =>
    if buf = [] then
      (storeMimeHeader f s).map fun stored => ({ stored.1 with stateFlag := .headerDone }, stored.2)
    else if s.stateFlag = .headerStarted then some (addDataValue s buf, .ok)
    else
      processBodyLine f
        { s with stateFlag := .bodyStarted, bodyBegin := true, bodyEnd := false } buf

def MimeDecEntity.describe (entity : MimeDecEntity) : MimeDecEntity :=
  let named (field : Option (List UInt8)) (start : List UInt8) : Option (List UInt8) :=
    field.bind (findMimeHeaderToken · start)
  let has (field : Option (List UInt8)) (find : List UInt8) : Bool :=
    field.any fun text => (findBuffer text find).isSome
  let filename := (named entity.ctntDisp (bytesOf "filename=\"")).or
    (named entity.ctntType (bytesOf "name=\""))
  let kind := entity.ctntType.bind (getToken · (bytesOf " \r\n;"))
  let nested := has kind (bytesOf "message/") || has kind (bytesOf "multipart/")
  { entity with
    isBase64 := has entity.ctntTran (bytesOf "Base64")
    isQP := !has entity.ctntTran (bytesOf "Base64") &&
      has entity.ctntTran (bytesOf "quoted-printable")
    isAttachment := filename.isSome
    filename := filename.getD []
    isText := !nested && has kind (bytesOf "text/plain")
    isHtml := !nested && !has kind (bytesOf "text/plain") && has kind (bytesOf "text/html") }

def MimeDecEntity.boundary (entity : MimeDecEntity) : Option (List UInt8) :=
  entity.ctntType.bind (findMimeHeaderToken · (bytesOf "boundary=\""))

def MimeDecEntity.isMessage (entity : MimeDecEntity) : Bool :=
  (entity.ctntType.bind (getToken · (bytesOf " \r\n;"))).any fun kind =>
    (findBuffer kind (bytesOf "message/")).isSome

/-- What `ProcessMimeHeaders` does when the headers are complete. -/
def headersDone (s : MimeDecParseState σ) (node : MimeDecStackNode) (rest : List MimeDecStackNode) :
    MimeDecParseState σ × MimeDecRetCode :=
  let bdef := node.data.boundary
  if bdef.any fun b => boundaryBuf - 2 < b.length then
    -- a name in the type is looked for behind the boundary
    let described := { ({ node.data with ctntType := none } : MimeDecEntity).describe with
      ctntType := node.data.ctntType }
    ({ s with stack := { node with data := described } :: rest, foundChild := true }, .errParse)
  else
    let s := { s with
      stack := { node with data := node.data.describe, bdef := bdef.or node.bdef } :: rest
      foundChild := bdef.isSome || s.foundChild
      bodyBegin := true
      bodyEnd := false }
    if node.data.isMessage then ({ s.pushStack true with stateFlag := .headerReady }, .ok)
    else (s, .ok)

/-- `ProcessMimeHeaders`. -/
def processMimeHeaders (s : MimeDecParseState σ) (buf : List UInt8) :
    Option (MimeDecParseState σ × MimeDecRetCode) :=
  if s.stack = [] then none
  else do
    let r ← findMimeHeader f s buf
    if r.2 ≠ .ok then some r
    else
      match r.1.stack with
      | [] => none
      | node :: rest =>
          if r.1.stateFlag = .headerDone then some (headersDone r.1 node rest) else some r

def boundaryLine (bdef : List UInt8) : List UInt8 := bytesOf "--" ++ bdef

def popEncap (s : MimeDecParseState σ) : Option (MimeDecParseState σ × MimeDecRetCode) :=
  match s.stack with
  | [] => none
  | [node] => some (s, if node.isEncap ∧ node.bdef = none then .errData else .ok)
  | node :: parent :: _ =>
    some (if node.isEncap ∧ node.bdef = none ∧ parent.bdef = none then s.popStack else s, .ok)

/-- `ProcessMimeBoundary`, for a boundary of the given length. -/
def processMimeBoundary (s : MimeDecParseState σ) (buf : List UInt8) (bdefLen : ℕ) :
    Option (MimeDecParseState σ × MimeDecRetCode) := do
  let r ← (if s.stateFlag ≠ .bodyEndBound then processBodyComplete f s
    else some ({ s with stateFlag := .headerReady }, .ok))
  if r.2 ≠ .ok then some r
  else
    let r ← popEncap r.1
    if r.2 ≠ .ok then some r
    else
      let s := r.1
      if (buf.drop (bdefLen + 2)).take 2 = bytesOf "--" then
        let s := s.popStack
        match s.stack with
        | [] => some (s, .errData)
        | node :: _ =>
          if node.isEncap ∧ node.bdef ≠ none then
            if s.popStack.stack = [] then some (s.popStack, .errData)
            else some ({ s.popStack with stateFlag := .bodyEndBound }, .ok)
          else some ({ s with stateFlag := .bodyEndBound }, .ok)
      else if s.foundChild then
        some ({ s.pushStack false with foundChild := false, stateFlag := .headerReady }, .ok)
      else if s.stack.tail = [] then some (s, .errData)
      else some ({ s.popStack.pushStack false with stateFlag := .headerReady }, .ok)

def currentBoundary (s : MimeDecParseState σ) : Option (List UInt8) :=
  match s.stack with
  | [] => none
  | node :: rest =>
    (if s.stateFlag = .bodyEndBound ∨ node.bdef = none then rest
      else node :: rest).findSome? (·.bdef)

/-- `ProcessMimeBody`. -/
def processMimeBody (s : MimeDecParseState σ) (buf : List UInt8) :
    Option (MimeDecParseState σ × MimeDecRetCode) :=
  if buf = [] then some (s, .ok)
  else if s.stack = [] then some (s, .errParse)
  else
    let bodyLine := processBodyLine f { s with stateFlag := .bodyStarted } buf
    match currentBoundary s with
    | none => bodyLine
    | some bdef =>
      if buf.take 2 = bytesOf "--" then
        if boundaryBuf < bdef.length + 2 then some (s, .errParse)
        else if (findBuffer buf (boundaryLine bdef)).isSome then
          processMimeBoundary f s buf bdef.length
        else bodyLine
      else bodyLine

/-- `ProcessMimeEntity`. -/
def processMimeEntity (s : MimeDecParseState σ) (buf : List UInt8) :
    Option (MimeDecParseState σ × MimeDecRetCode) :=
  if maxLineLen < buf.length ∧ s.stack = [] then none
  else if s.stateFlag = .headerReady ∨ s.stateFlag = .headerStarted then processMimeHeaders f s buf
  else processMimeBody f s buf

/-- `MimeDecParseLine`. -/
def mimeDecParseLine (s : MimeDecParseState σ) (line : List UInt8) : Option (MimeDecParseState σ) :=
  (processMimeEntity f s line).map fun r =>
    if r.2 ≠ .ok then { r.1 with stateFlag := .parseError } else r.1

def mimeDecParseLines (s : MimeDecParseState σ) (lines : List (List UInt8)) :
    Option (MimeDecParseState σ) :=
  Lib.runFrom (mimeDecParseLine f) s lines

/-- `MimeDecParseComplete`. -/
def mimeDecParseComplete (s : MimeDecParseState σ) :
    Option (MimeDecParseState σ × MimeDecRetCode) := do
  let stored ← storeMimeHeader f s
  if stored.2 ≠ .ok then some stored
  else
    let r ← processBodyComplete f stored.1
    if r.2 ≠ .ok then some r
    else
      match r.1.stack with
      | [] => some (r.1, .errData)
      | node :: _ =>
        let s := if node.isEncap then r.1.popStack else r.1
        if s.stack = [] then some (s, .errData) else some ({ s with stateFlag := .parseDone }, .ok)

end

end CloudHands.Mail

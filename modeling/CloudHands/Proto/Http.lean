import Mathlib.Data.List.DropRight
import CloudHands.Http.Built
import CloudHands.Proto.Store

/-!
# HTTP sessions

`do_http_session_format` and `HTTPSession.parse`. The Java side ends with `setFileInfo`, which
looks every character of the path of the URI up in a table of 256 entries unless the
`Content-Disposition` header names a file; a character outside of Latin-1 is an exception.
-/

namespace CloudHands.Proto

open Lib Lib.TokenReader Msgpack Japi Http

/-- A session with the names of the files that its bodies go to. -/
structure HttpRecord where
  session : HttpSession
  reqFname : List UInt8
  resFname : List UInt8

namespace HttpRecord

variable (r : HttpRecord)

def method : List UInt8 := r.session.method.getD []
def uri : List UInt8 := r.session.uri.getD []

/-- `BODY_NAME`. -/
def reqBodyPath : List UInt8 := if r.session.reqBody.isSome then r.reqFname else []
def resBodyPath : List UInt8 := if r.session.resBody.isSome then r.resFname else []

def inHeaders : List (List UInt8 × List UInt8) := r.session.headersIn.headers
def outHeaders : List (List UInt8 × List UInt8) := r.session.headersOut.headers

end HttpRecord

def httpVersionToStr (httpVersion : ℕ) : String :=
  match httpVersion with
  | 9 => "HTTP/0.9"
  | 1000 => "HTTP/1.0"
  | 1001 => "HTTP/1.1"
  | 2000 => "HTTP/2.0"
  | _ => "unknown"

def packHeader (header : List UInt8 × List UInt8) : List Token := [.str header.1, .str header.2]

/-- `_pack_headers`; the session counts its calls of `ch_http_session_header_add`. -/
def packHeaders (k : String) (headers : List (List UInt8 × List UInt8)) : List Token :=
  mapStart k (count32 headers) ++ headers.flatMap packHeader

def httpSessionFormat (r : HttpRecord) : List Token :=
  mapStart "http" 8 ++ (writeKv "method" r.method ++ (writeKv "uri" r.uri ++
    (writeKv "version" (utf8Bytes (httpVersionToStr r.session.httpVersion)) ++
    (writeUint "status" (UInt32.ofNat r.session.statusCode) ++
    (writeKv "reqBodyPath" r.reqBodyPath ++ (writeKv "resBodyPath" r.resBodyPath ++
    (packHeaders "inHeaders" r.inHeaders ++ packHeaders "outHeaders" r.outHeaders)))))))

/-- One character of `equalsIgnoreCase` against a text in ASCII: besides the upper case letters
there are four characters that have an ASCII letter for a case of theirs. -/
def foldCase (c : Char) : Char :=
  match c with
  | 'ı' | 'İ' => 'i'
  | 'ſ' => 's'
  | '\u212a' => 'k'
  | c => c.toLower

def isHeader (k sk : String) : Bool := k.toList.map foldCase = sk.toList.map foldCase

def headerValue (headers : List (String × String)) (name : String) : String :=
  headers.foldl (fun found h => if found.isEmpty && isHeader h.1 name then h.2 else found) ""

/-- `String.split` at a character: empty strings at the end are dropped. -/
def javaSplit (c : Char) (s : List Char) : List (List Char) :=
  if c ∈ s then (s.splitOn c).rdropWhile List.isEmpty else [s]

/-- `Content.getFileName` on a content disposition, none for null. -/
def fileNameOf (contentDisposition : String) : Option String := do
  let param ← (javaSplit ';' contentDisposition.toList)[1]?
  let value ← (javaSplit '=' param)[1]?
  pure (String.ofList (value.filter (· ≠ '"')))

def endsPath (c : Char) : Bool := c = '?' || c = '#' || c = '\x00'

/-- The loop of `getPathEndPos`, none for the exception on an index outside of the table. -/
def pathOf : List Char → Option (List Char)
  | [] => some []
  | c :: cs =>
    if 256 ≤ c.toNat then none
    else if endsPath c then some []
    else (pathOf cs).map (c :: ·)

def getPath (uri : String) : Option String :=
  if uri.isEmpty then some "" else (pathOf uri.toList).map String.ofList

/-- `Content.getFsize`. -/
def getFsize (env : Env) (path : String) : Option ℕ :=
  if path.isEmpty then some 0 else env.fsize path

/-- What is read from the record; the fields that copy the value of one header are left out. -/
structure HTTPSession where
  sessionEntry : TCPSessionEntry
  method : String
  uri : String
  version : String
  status : ℕ
  reqBodyPath : String
  resBodyPath : String
  reqHeaders : List (String × String)
  resHeaders : List (String × String)

def unpackHeader (env : Env) : Unpacker (String × String) := do
  let k ← unpackString env.replaced
  let v ← unpackString env.replaced
  pure (k, v)

def unpackHeaders (env : Env) : Unpacker (List (String × String)) :=
  parseMapTimes (unpackHeader env)

/-- The part of `setFileInfo` that can throw; the name and the extension it sets are left out. -/
def setFileInfo (contentDisposition uri : String) : Unpacker Unit :=
  let fname := if contentDisposition.isEmpty then none else fileNameOf contentDisposition
  if (fname.getD "").isEmpty then do
    let _ ← orThrow (getPath uri)
    pure ()
  else pure ()

def setPBytes (entry : TCPSessionEntry) (reqBSize resBSize : ℕ) : TCPSessionEntry :=
  { entry with
    reqPBytes := if 0 < reqBSize then reqBSize else entry.reqPBytes
    resPBytes := if 0 < resBSize then resBSize else entry.resPBytes }

/-- `hasSecMatch`: a third entry of the outer map has the results of a detection. -/
def parseSecMatch (env : Env) (n : ℕ) : Unpacker Unit :=
  if n = 3 then env.secMatchResult else pure ()

def HTTPSession.parse (env : Env) : Unpacker HTTPSession := do
  let n ← unpackMapHeader
  check (n = 2 ∨ n = 3)
  let entry ← parseCommon
  parseMapOf 8
  let method ← parseText env.replaced
  let uri ← parseText env.replaced
  let version ← parseText env.replaced
  let status ← parseInt
  let reqBodyPath ← parseText env.replaced
  let resBodyPath ← parseText env.replaced
  let reqBSize ← orThrow (getFsize env reqBodyPath)
  let resBSize ← orThrow (getFsize env resBodyPath)
  let reqHeaders ← unpackHeaders env
  let resHeaders ← unpackHeaders env
  parseSecMatch env n
  setFileInfo (headerValue resHeaders "Content-Disposition") uri
  pure ⟨setPBytes entry reqBSize resBSize, method, uri, version, status, reqBodyPath, resBodyPath,
    reqHeaders, resHeaders⟩

structure HTTPSession.Same (got : HTTPSession) (t : TcpSession) (r : HttpRecord) : Prop where
  sessionEntry : got.sessionEntry.Same t
  method : SameText got.method r.method
  uri : SameText got.uri r.uri
  version : got.version = httpVersionToStr r.session.httpVersion
  status : got.status = r.session.statusCode
  reqBodyPath : SameText got.reqBodyPath r.reqBodyPath
  resBodyPath : SameText got.resBodyPath r.resBodyPath
  reqHeaders : List.Forall₂ SamePair got.reqHeaders r.inHeaders
  resHeaders : List.Forall₂ SamePair got.resHeaders r.outHeaders

def headerTexts (env : Env) (headers : List (List UInt8 × List UInt8)) : List (String × String) :=
  headers.map (decodePair env)

def FileNamed (contentDisposition uri : String) : Prop :=
  (∃ name, fileNameOf contentDisposition = some name ∧ name ≠ "") ∨
    ∀ c ∈ uri.toList.takeWhile (!endsPath ·), c.toNat < 256

def HeadersReadable (headers : List (List UInt8 × List UInt8)) : Prop :=
  ListReadable PairReadable headers

structure HttpReadable (env : Env) (r : HttpRecord) : Prop where
  method : TextReadable r.method
  uri : TextReadable r.uri
  reqBodyPath : TextReadable r.reqBodyPath
  resBodyPath : TextReadable r.resBodyPath
  reqFile : (getFsize env (decodeText env.replaced r.reqBodyPath)).isSome
  resFile : (getFsize env (decodeText env.replaced r.resBodyPath)).isSome
  inHeaders : HeadersReadable r.inHeaders
  outHeaders : HeadersReadable r.outHeaders
  fileNamed : FileNamed (headerValue (headerTexts env r.outHeaders) "Content-Disposition")
    (decodeText env.replaced r.uri)

theorem pathOf_isSome_iff (cs : List Char) :
    (pathOf cs).isSome ↔ ∀ c ∈ cs.takeWhile (!endsPath ·), c.toNat < 256 := by
  induction cs with
  | nil => simp [pathOf]
  | cons c cs ih =>
    have hdelim : endsPath c = true → c.toNat < 256 := by
      simp only [endsPath, Bool.or_eq_true, decide_eq_true_eq]
      rintro ((rfl | rfl) | rfl) <;> decide
    rw [pathOf]
    by_cases hend : endsPath c = true
    · simp [hend, Nat.not_le.2 (hdelim hend)]
    · rw [Bool.not_eq_true] at hend
      by_cases hc : 256 ≤ c.toNat
      · simp [hend, hc]
      · simp [hend, hc, ih, Nat.not_le.1 hc]

theorem getPath_isSome_iff (uri : String) :
    (getPath uri).isSome ↔ ∀ c ∈ uri.toList.takeWhile (!endsPath ·), c.toNat < 256 := by
  rw [← pathOf_isSome_iff, getPath]
  split
  · rename_i hempty
    obtain rfl : uri = "" := String.isEmpty_iff.1 hempty
    simp [pathOf]
  · rw [Option.isSome_map]

theorem fileNameOf_empty : fileNameOf "" = none := by decide

theorem setFileInfo_eq (contentDisposition uri : String) :
    setFileInfo contentDisposition uri =
      if (fileNameOf contentDisposition).getD "" = "" then (fun _ => ()) <$> orThrow (getPath uri)
      else pure () := by
  have hnone : (if contentDisposition = "" then none else fileNameOf contentDisposition) =
      fileNameOf contentDisposition := by
    split
    · rename_i hempty
      rw [hempty, fileNameOf_empty]
    · rfl
  simp only [setFileInfo, String.isEmpty_iff, hnone, bind_pure_comp]

theorem fileNamed_iff {contentDisposition uri : String} :
    FileNamed contentDisposition uri ↔
      ((fileNameOf contentDisposition).getD "" = "" → (getPath uri).isSome) := by
  rw [FileNamed, getPath_isSome_iff]
  cases fileNameOf contentDisposition with
  | none => simp
  | some name => simp [or_iff_not_imp_left]

theorem yields_setFileInfo {contentDisposition uri : String}
    (h : FileNamed contentDisposition uri) :
    Yields (setFileInfo contentDisposition uri) ([] : List Token) () := by
  rw [fileNamed_iff] at h
  rw [setFileInfo_eq]
  split
  · rename_i hname
    obtain ⟨path, hpath⟩ := Option.isSome_iff_exists.1 (h hname)
    exact (yields_orThrow hpath).map _
  · exact yields_pure ()

theorem setFileInfo_run {contentDisposition uri : String} {ts rest : List Token}
    (h : (setFileInfo contentDisposition uri).run ts = some ((), rest)) :
    FileNamed contentDisposition uri ∧ ts = rest := by
  rw [setFileInfo_eq] at h
  rw [fileNamed_iff]
  split at h
  · obtain ⟨path, hpath, -⟩ := run_map_eq_some.1 h
    obtain ⟨hsome, hrest⟩ := orThrow_run_eq_some.1 hpath
    exact ⟨fun _ => by rw [hsome]; rfl, hrest⟩
  · rename_i hname
    obtain ⟨-, rfl⟩ := Prod.mk.inj (Option.some.inj h)
    exact ⟨fun hempty => absurd hempty hname, rfl⟩

theorem yields_header {env : Env} {header : List UInt8 × List UInt8} (h : PairReadable header) :
    Yields (unpackHeader env) (packHeader header) (decodePair env header) :=
  (yields_string h.1.1).bind <| (yields_string h.2.1).bind_pure (yields_pure _)

theorem header_of_same {env : Env} {header : List UInt8 × List UInt8} {got : String × String}
    {rest rest' : List Token}
    (h : (unpackHeader env).run (packHeader header ++ rest) = some (got, rest'))
    (hsame : SamePair got header) : PairReadable header ∧ rest' = rest := by
  obtain ⟨hkey, h⟩ := string_bind_run h
  obtain ⟨hval, h⟩ := string_bind_run h
  obtain ⟨rfl, rfl⟩ := Prod.mk.inj (Option.some.inj h)
  exact ⟨⟨⟨hkey, decodeText_same_iff.1 hsame.1⟩, ⟨hval, decodeText_same_iff.1 hsame.2⟩⟩, rfl⟩

theorem headerTexts_same {env : Env} {headers : List (List UInt8 × List UInt8)}
    (h : HeadersReadable headers) : List.Forall₂ SamePair (headerTexts env headers) headers :=
  ListReadable.same h fun _ => PairReadable.same

theorem yields_headers {env : Env} {k : String} {headers : List (List UInt8 × List UInt8)}
    (hk : k.isEmpty = false) (h : HeadersReadable headers) :
    Yields (unpackHeaders env) (packHeaders k headers) (headerTexts env headers) :=
  yields_mapTimes hk h.1 fun x hx => yields_header (h.2 x hx)

theorem headers_of_same {env : Env} {k : String} {headers : List (List UInt8 × List UInt8)}
    {got : List (String × String)} {rest rest' : List Token} (hk : k.isEmpty = false)
    (h : (unpackHeaders env).run (packHeaders k headers ++ rest) = some (got, rest'))
    (hsame : List.Forall₂ SamePair got headers) :
    HeadersReadable headers ∧ got = headerTexts env headers ∧ rest' = rest := by
  have hreadable : HeadersReadable headers := (mapTimes_of_same hk header_of_same h hsame).1
  obtain ⟨rfl, rfl⟩ := (yields_headers hk hreadable).eq_of_run h
  exact ⟨hreadable, rfl, rfl⟩

theorem yields_noSecMatch (env : Env) : Yields (parseSecMatch env 2) [] () := yields_pure ()

theorem httpVersionToStr_short (httpVersion : ℕ) :
    (utf8Bytes (httpVersionToStr httpVersion)).length < 2 ^ 31 := by
  unfold httpVersionToStr
  split <;> decide

theorem status_toNat {app : App} {s : HttpSession} (h : Built app s) :
    (UInt32.ofNat s.statusCode).toNat = s.statusCode := by
  have hlt := h.statusCode_lt
  exact UInt32.toNat_ofNat_of_lt' (by change _ < 4294967296; omega)

theorem status_lt {app : App} {s : HttpSession} (h : Built app s) :
    (UInt32.ofNat s.statusCode).toNat < 2 ^ 31 := by
  have hlt := h.statusCode_lt
  rw [status_toNat h]
  omega

def httpOf (env : Env) (t : TcpSession) (r : HttpRecord) (reqBSize resBSize : ℕ) : HTTPSession :=
  ⟨setPBytes (commonOf t) reqBSize resBSize, decodeText env.replaced r.method,
    decodeText env.replaced r.uri,
    decodeText env.replaced (utf8Bytes (httpVersionToStr r.session.httpVersion)),
    (UInt32.ofNat r.session.statusCode).toNat, decodeText env.replaced r.reqBodyPath,
    decodeText env.replaced r.resBodyPath, headerTexts env r.inHeaders,
      headerTexts env r.outHeaders⟩

theorem httpOf_same {app : App} {env : Env} {t : TcpSession} {r : HttpRecord}
    (hr : Built app r.session) (h : HttpReadable env r) (reqBSize resBSize : ℕ) :
    (httpOf env t r reqBSize resBSize).Same t r where
  sessionEntry := ⟨rfl, rfl, rfl, rfl, rfl, rfl, rfl, rfl, rfl, rfl, rfl, rfl, rfl, rfl, rfl⟩
  method := h.method.same
  uri := h.uri.same
  version := decodeText_utf8Bytes _ _
  status := status_toNat hr
  reqBodyPath := h.reqBodyPath.same
  resBodyPath := h.resBodyPath.same
  reqHeaders := headerTexts_same h.inHeaders
  resHeaders := headerTexts_same h.outHeaders

section Record

variable {app : App} {env : Env} {t : TcpSession} {r : HttpRecord}

theorem http_agrees_of_readable (ht : Storable t) (hr : Built app r.session)
    (h : HttpReadable env r) :
    Agrees (HTTPSession.parse env) (protoSessionStore t (httpSessionFormat r)) (·.Same t r) := by
  obtain ⟨reqBSize, hreq⟩ := Option.isSome_iff_exists.1 h.reqFile
  obtain ⟨resBSize, hres⟩ := Option.isSome_iff_exists.1 h.resFile
  have hstatus := status_lt hr
  refine ⟨httpOf env t r reqBSize resBSize, ?_, httpOf_same hr h reqBSize resBSize⟩
  rw [HTTPSession.parse, record_run (.inl rfl) ht]
  exact Yields.run <| (yields_mapOf (by omega) rfl).bind <| (yields_text h.method.1).bind <|
    (yields_text h.uri.1).bind <| (yields_text (httpVersionToStr_short _)).bind <|
    (yields_int hstatus rfl).bind <| (yields_text h.reqBodyPath.1).bind <|
    (yields_text h.resBodyPath.1).bind <| (yields_orThrow hreq).nil_bind <|
    (yields_orThrow hres).nil_bind <| (yields_headers rfl h.inHeaders).bind <|
    (yields_headers rfl h.outHeaders).bind_pure <| (yields_noSecMatch env).nil_bind <|
    (yields_setFileInfo h.fileNamed).nil_bind (yields_pure _)

theorem readable_of_http_agrees (ht : Storable t) (hr : Built app r.session)
    (h : Agrees (HTTPSession.parse env) (protoSessionStore t (httpSessionFormat r)) (·.Same t r)) :
    HttpReadable env r := by
  obtain ⟨got, hrun, hsame⟩ := h
  have hstatus := status_lt hr
  rw [HTTPSession.parse, record_run (.inl rfl) ht, httpSessionFormat,
    (yields_mapOf (by omega) rfl).bind_run] at hrun
  obtain ⟨hmethod, hrun⟩ := text_bind_run hrun
  obtain ⟨huri, hrun⟩ := text_bind_run hrun
  obtain ⟨-, hrun⟩ := text_bind_run hrun
  rw [writeUint, (yields_int hstatus rfl).bind_run] at hrun
  obtain ⟨hreqPath, hrun⟩ := text_bind_run hrun
  obtain ⟨hresPath, hrun⟩ := text_bind_run hrun
  obtain ⟨reqBSize, mid₁, hreq, hrun⟩ := run_bind_eq_some.1 hrun
  obtain ⟨hreqFile, rfl⟩ := orThrow_run_eq_some.1 hreq
  obtain ⟨resBSize, mid₂, hres, hrun⟩ := run_bind_eq_some.1 hrun
  obtain ⟨hresFile, rfl⟩ := orThrow_run_eq_some.1 hres
  obtain ⟨reqHeaders, mid₃, hreqHeaders, hrun⟩ := run_bind_eq_some.1 hrun
  obtain ⟨resHeaders, mid₄, hresHeaders, hrun⟩ := run_bind_eq_some.1 hrun
  rw [(yields_noSecMatch env).nil_bind_run] at hrun
  obtain ⟨⟨⟩, mid₅, hfile, hrun⟩ := run_bind_eq_some.1 hrun
  obtain ⟨rfl, rfl⟩ := Prod.mk.inj (Option.some.inj hrun)
  obtain ⟨hin, rfl, rfl⟩ := headers_of_same rfl hreqHeaders hsame.reqHeaders
  rw [← List.append_nil (packHeaders _ r.outHeaders)] at hresHeaders
  obtain ⟨hout, rfl, rfl⟩ := headers_of_same rfl hresHeaders hsame.resHeaders
  exact ⟨⟨hmethod, decodeText_same_iff.1 hsame.method⟩, ⟨huri, decodeText_same_iff.1 hsame.uri⟩,
    ⟨hreqPath, decodeText_same_iff.1 hsame.reqBodyPath⟩,
    ⟨hresPath, decodeText_same_iff.1 hsame.resBodyPath⟩, Option.isSome_of_eq_some hreqFile,
    Option.isSome_of_eq_some hresFile, hin, hout, (setFileInfo_run hfile).1⟩

end Record

end CloudHands.Proto

import CloudHands.Lib.ByteFile
import CloudHands.Lib.Decimal
import CloudHands.Lib.Slice
import Mathlib.Data.List.AList

/-!
# The partial content of HTTP downloads

`BasicHttpPartContentParser.java` with `FileStorage.java` and `ContentRange.java`, and
`HTTPSessionParser.parse` around them. A response with a part of a file is parked in a table
under the key of its download, and its body is written into the file of the first part. What
`System.currentTimeMillis` gives is an argument wherever it is called.
-/

namespace CloudHands.PartContent

open Lib Slice

inductive BodyFile
  | content (bytes : List UInt8)
  | missing
  | failing
deriving DecidableEq

/-- The fields of `HTTPSession` that the partial content is about. -/
structure HTTPSession where
  reqIP : ℤ
  host : String
  uri : String
  status : ℤ
  contentRange : List Char
  resBody : BodyFile
  resPBytes : ℕ
deriving DecidableEq

def HTTPSession.isPartContent (s : HTTPSession) : Bool := s.status == 206 && !s.contentRange.isEmpty

def HTTPSession.get206Key (s : HTTPSession) : String := toString s.reqIP ++ s.host ++ s.uri

structure ContentRange where
  rangeFrom : ℕ
  rangeTo : ℤ
  totalLength : ℤ
deriving DecidableEq

/-- `Long.parseLong`, over the table behind `Character.digit`. -/
def parseLong (digit : Char → Option ℕ) (s : List Char) : Option ℤ :=
  parseSigned digit (-2 ^ 63) (2 ^ 63 - 1) s

def getDigitIndex (contentRange : List Char) : Option ℕ :=
  contentRange.findIdx? fun c => (asciiDigit c).isSome

/-- The constructor of `ContentRange`; every exception is a failure. The text of `from`
begins with a digit, so it is no negative number. -/
def contentRangeParse (digit : Char → Option ℕ) (contentRange : List Char) :
    Option ContentRange := do
  let startIndex ← getDigitIndex contentRange
  let endIndex ← contentRange.findIdx? (· = '-')
  guard (startIndex < endIndex)
  let rangeFrom ← parseLong digit (slice contentRange startIndex endIndex)
  let slash ← contentRange.findIdx? (· = '/')
  guard (endIndex + 1 ≤ slash)
  let rangeTo ← parseLong digit (slice contentRange (endIndex + 1) slash)
  let totalLength ← parseLong digit (contentRange.drop (slash + 1))
  pure ⟨rangeFrom.toNat, rangeTo, totalLength⟩

/-- The file behind a `FileStorage`. The sessions whose bodies were written into it are kept
beside the bytes for the proofs; the code has no such list. -/
structure FileStorage where
  bytes : List UInt8
  written : List HTTPSession
deriving DecidableEq

/-- The constructor of `FileStorage`: a first part that does not begin the file is moved. -/
def fileStorage (s : HTTPSession) (offset : ℕ) : Option FileStorage :=
  match s.resBody with
  | .content bytes => some ⟨if offset = 0 then bytes else writeAt bytes offset bytes, [s]⟩
  | .missing => some ⟨[], [s]⟩
  | .failing => none

def FileStorage.write (f : FileStorage) (s : HTTPSession) (offset : ℕ) : Option FileStorage :=
  match s.resBody with
  | .content data => some ⟨writeAt f.bytes offset data, f.written ++ [s]⟩
  | .missing | .failing => none

structure PartContentValue where
  httpSession : HTTPSession
  fileStorage : FileStorage
  totalLength : ℤ
  offset : ℕ
  lastTime : ℤ
deriving DecidableEq

def PartContentValue.isComplete (v : PartContentValue) : Bool :=
  v.fileStorage.bytes.length = v.totalLength && v.offset == 0

def PartContentValue.contentRangeMake (v : PartContentValue) : List Char :=
  s!"bytes {v.offset}-{v.totalLength - 1}/{v.totalLength}".toList

structure Returned where
  session : HTTPSession
  parts : List HTTPSession
deriving DecidableEq

def Returned.asIs (s : HTTPSession) : Returned := ⟨s, [s]⟩

def PartContentValue.getFinalHttpSession (v : PartContentValue) : Returned where
  session :=
    { v.httpSession with
      contentRange := v.contentRangeMake
      resPBytes := v.fileStorage.bytes.length
      resBody := .content v.fileStorage.bytes }
  parts := v.fileStorage.written

abbrev PartContents : Type := AList fun _ : String => PartContentValue

def timeout : ℤ := 10 * 60

def PartContentValue.isTimeout (now : ℤ) (v : PartContentValue) : Bool := timeout < now - v.lastTime

/-- `moveAllTimeout`, in some order of the table. -/
def moveAllTimeout (now : ℤ) (t : PartContents) : List PartContentValue × PartContents :=
  ((t.entries.filter (·.2.isTimeout now)).map (·.2),
    ⟨t.entries.filter (!·.2.isTimeout now), t.nodupKeys.sublist List.filter_sublist⟩)

def createPCV (now : ℤ) (s : HTTPSession) (r : ContentRange) : Option PartContentValue := do
  let f ← fileStorage s r.rangeFrom
  pure ⟨s, f, r.totalLength, r.rangeFrom, now⟩

/-- The end of `doParse`, with the entry of the key at hand. -/
def returnComplete (key : String) (v : PartContentValue) (t : PartContents) :
    List Returned × PartContents :=
  if v.isComplete then ([v.getFinalHttpSession], t.erase key) else ([], t.insert key v)

def doParse (digit : Char → Option ℕ) (now : ℤ) (s : HTTPSession) (t : PartContents) :
    List Returned × PartContents :=
  match contentRangeParse digit s.contentRange with
  | none => ([.asIs s], t)
  | some r =>
    match t.lookup s.get206Key with
    | some v =>
      let v := { v with lastTime := now }
      match v.fileStorage.write s r.rangeFrom with
      | none => ([.asIs s], t.insert s.get206Key v)
      | some f => returnComplete s.get206Key { v with fileStorage := f } t
    | none =>
      match createPCV now s r with
      | none => ([.asIs s], t)
      | some v => returnComplete s.get206Key v t

def clean (now : ℤ) (t : PartContents) : List Returned × PartContents :=
  ((moveAllTimeout now t).1.map (·.getFinalHttpSession), (moveAllTimeout now t).2)

/-- `BasicHttpPartContentParser.parse`: the lists of `doParse` and of `clean` are joined, but
the first of them is returned. -/
def parse (digit : Char → Option ℕ) (now cleanNow : ℤ) (s : HTTPSession) (t : PartContents) :
    List Returned × PartContents :=
  let (parseRes, t) := doParse digit now s t
  let (_, t) := clean cleanNow t
  (parseRes, t)

/-- `HTTPSessionParser.parse` from the session on. -/
def sessionParse (digit : Char → Option ℕ) (now cleanNow : ℤ) (s : HTTPSession) (t : PartContents) :
    List Returned × PartContents :=
  if s.isPartContent then parse digit now cleanNow s t
  else (.asIs s :: (clean cleanNow t).1, (clean cleanNow t).2)

end CloudHands.PartContent

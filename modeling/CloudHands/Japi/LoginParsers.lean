import CloudHands.Http.LineParse
import CloudHands.Lib.Base64
import Mathlib.Data.List.DropRight

/-!
# Login parsers of the Java side

`POP3StreamParser`, `SMTPStreamParser` and the `LineTextReader` they read lines with. A string is
its characters, and none stands for null. How bytes become characters is left to a charset of
which only that it extends ASCII is known.
-/

namespace CloudHands.Japi.Login

open Lib Http

abbrev JString := List Char

def charOf (c : UInt8) : Char := Char.ofNat c.toNat

structure Charset where
  decode : List UInt8 → JString
  decode_nil : decode [] = []
  decode_ascii : ∀ xs c ys, c < 128 → decode (xs ++ c :: ys) = decode xs ++ charOf c :: decode ys
  mem_of_ascii : ∀ xs c, c < 128 → charOf c ∈ decode xs → c ∈ xs

/-- `String.trim`. -/
def trim (s : JString) : JString := (s.dropWhile (· ≤ ' ')).rdropWhile (· ≤ ' ')

/-- `String.split(" ")`. -/
def split (s : JString) : List JString :=
  let parts := s.splitOn ' '
  if parts.length = 1 then [s] else parts.rdropWhile (· = [])

def startsWith (s start : JString) : Bool := start.isPrefixOf s

/-- `String.indexOf`, from an offset on. -/
def indexOf (s word : JString) (offset : ℕ) : Option ℕ :=
  (List.range s.length).find? fun i => offset ≤ i && word.isPrefixOf (s.drop i)

/-- `TextUtils.getLineIndex`. -/
def getLineIndex (line : JString) (offset : ℕ) : Option ℕ :=
  let rIndex := indexOf line ['\r'] offset
  if rIndex.isSome then rIndex else indexOf line ['\n'] offset

/-- `String.getBytes` of ISO 8859-1. -/
def latin1Bytes (s : JString) : List UInt8 :=
  s.map fun c => if c.toNat < 256 then UInt8.ofNat c.toNat else 63

section

variable (cs : Charset)

/-- `TextUtils.decodeBase64`. -/
def decodeBase64 (text : JString) : Option JString :=
  (Base64.decode (latin1Bytes text)).map cs.decode

/-- `LineTextReader.readLine`, none where `hasLine` is false. -/
def readLine (data : List UInt8) : Option (JString × List UInt8) :=
  (lineRead data).map fun p => (trim (cs.decode (p.1.take (lineLen p.1))), p.2)

structure POP3StreamParserData where
  user : JString
  passwd : JString
  isLoginOK : ℕ
deriving DecidableEq, Repr

def fieldOf (line old : JString) : JString :=
  let splits := split line
  if 2 < splits.length then splits.getD 1 [] else old

/-- The body of the loop of `POP3StreamParser.parseRequest`. -/
def pop3Line (r : JString × JString) (line : JString) : JString × JString :=
  if startsWith line "USER".toList then (fieldOf line r.1, r.2)
  else if startsWith line "PASS".toList then (r.1, fieldOf line r.2)
  else r

def pop3Loop : ℕ → List UInt8 → JString × JString → JString × JString
  | 0, _, r => r
  | fuel + 1, data, r =>
    match readLine cs data with
    | none => r
    | some (line, rest) => pop3Loop fuel rest (pop3Line r line)

structure SMTPStreamParserData where
  user : Option JString
  passwd : Option JString
  mailFrom : JString
  isLoginOK : ℕ
deriving DecidableEq, Repr

/-- `SMTPStreamParser.isAuthPlain`. -/
def isAuthPlain (text : JString) : Bool :=
  match indexOf text "AUTH PLAIN".toList 0 with
  | none => false
  | some index => (getLineIndex text index).isSome

/-- User and password in a line of `AUTH PLAIN`, none where `parseAuthPlain` returns null. -/
def authPlainLine (line : JString) : Option (JString × JString) :=
  if (split line).length ≠ 3 then none
  else
    match decodeBase64 cs ((split line).getD 2 []) with
    | none => none
    | some text =>
      if text = [] then none
      else if (split text).length ≠ 2 then none
      else some ((split text).getD 0 [], (split text).getD 1 [])

/-- The loop of `parseAuthPlain`. -/
def authPlainLoop : ℕ → List UInt8 → Option (JString × JString)
  | 0, _ => some ([], [])
  | fuel + 1, data =>
    match readLine cs data with
    | none => some ([], [])
    | some (line, rest) =>
      if line = [] then authPlainLoop fuel rest
      else if startsWith line "AUTH PLAIN".toList then authPlainLine cs line
      else authPlainLoop fuel rest

/-- The sender that `parseAuthPlain` cuts out of the content. -/
def plainMailFrom (contentText : JString) : JString :=
  match indexOf contentText "mail FROM:".toList 0 with
  | none => []
  | some start =>
    match indexOf contentText [' '] (start + 10) with
    | none => []
    | some stop => (contentText.take stop).drop (start + 10)

/-- What the loop of `parseAuthLogin` has read. -/
structure AuthLogin where
  user : Option JString
  passwd : Option JString
  mailFrom : JString
deriving DecidableEq, Repr

/-- The loop of `parseAuthLogin`. -/
def authLoginLoop : ℕ → List UInt8 → AuthLogin → AuthLogin
  | 0, _, r => r
  | fuel + 1, data, r =>
    match readLine cs data with
    | none => r
    | some (line, rest) =>
      if line = [] then authLoginLoop fuel rest r
      else if startsWith line "AUTH LOGIN".toList then
        match readLine cs rest with
        | none => authLoginLoop fuel rest r
        | some (user, rest) =>
          let r := { r with user := decodeBase64 cs user }
          match readLine cs rest with
          | none => authLoginLoop fuel rest r
          | some (passwd, rest) =>
              authLoginLoop fuel rest { r with passwd := decodeBase64 cs passwd }
      else if startsWith line "MAIL FROM".toList then
        match readLine cs rest with
        | none => authLoginLoop fuel rest r
        | some (mailFrom, rest) => authLoginLoop fuel rest { r with mailFrom := mailFrom }
      else authLoginLoop fuel rest r

/-- The contents of a `SessionEntry`. -/
structure SessionEntry where
  reqContent : List UInt8
  resContent : Option (List UInt8)

/-- The platform's charset, and the one of `ByteData.decode`. -/
structure Charsets where
  platform : Charset
  content : Charset

variable (css : Charsets)

/-- `POP3StreamParser.parse`. -/
def parsePOP3 (entry : SessionEntry) : POP3StreamParserData :=
  let r := pop3Loop css.platform entry.reqContent.length entry.reqContent ([], [])
  let isLoginOK :=
    match entry.resContent with
    | none => 0
    | some res =>
      if res.length < 3 then 0
      else if startsWith (css.content.decode res) "+OK".toList then 1 else 0
  ⟨r.1, r.2, isLoginOK⟩

/-- `SMTPStreamParser.parseRequest`. -/
def parseSMTPRequest (data : List UInt8) : Option SMTPStreamParserData :=
  let text := css.content.decode data
  if isAuthPlain text then
    (authPlainLoop css.platform data.length data).map fun r =>
      ⟨some r.1, some r.2, plainMailFrom text, 0⟩
  else
    let r := authLoginLoop css.platform data.length data ⟨some [], some [], []⟩
    some ⟨r.user, r.passwd, r.mailFrom, 0⟩

/-- `SMTPStreamParser.parse`. -/
def parseSMTP (entry : SessionEntry) : Option SMTPStreamParserData :=
  (parseSMTPRequest css entry.reqContent).map fun parserData =>
    match entry.resContent with
    | none => parserData
    | some res =>
      if res.length < 10 then parserData
      else if (indexOf (css.content.decode res) "250-AUTH".toList 0).isSome then
        { parserData with isLoginOK := 1 }
      else parserData

end

end CloudHands.Japi.Login

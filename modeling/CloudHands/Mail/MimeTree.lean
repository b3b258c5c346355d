import CloudHands.Mail.MailCommon
import CloudHands.Mail.MimeText

/-!
# Trees of MIME entities

A mail as the tree of its entities, the lines that the tree is written in, and what of it the
callbacks are to receive. The decoder, line by line, finds the tree again: each header and the
content of each entity are handed over, in the order of the mail.
-/

namespace CloudHands.Mail

open Http

structure MimeHeader where
  name : List UInt8
  value : List UInt8
  folds : List (List UInt8)

namespace MimeHeader

def lines (h : MimeHeader) : List (List UInt8) := (h.name ++ 58 :: h.value) :: h.folds

/-- The value as it is stored, as far as the configured depth. -/
def stored (h : MimeHeader) : List UInt8 :=
  (h.value.dropWhile (· = 32) ++ h.folds.flatten).take headerValueDepth

structure Valid (h : MimeHeader) : Prop where
  name_ne : h.name ≠ []
  name_chars : ∀ c ∈ h.name, c ≠ 58 ∧ 33 ≤ c ∧ c ≤ 126
  folds : ∀ fold ∈ h.folds, fold ≠ [] ∧ findMimeHeaderStart fold = none
  text : 0 ∉ h.stored

instance (h : MimeHeader) : Decidable h.Valid :=
  haveI : Decidable (∀ c ∈ h.name, c ≠ 58 ∧ 33 ≤ c ∧ c ≤ 126) := List.decidableBAll _ _
  decidable_of_iff (h.name ≠ [] ∧ (∀ c ∈ h.name, c ≠ 58 ∧ 33 ≤ c ∧ c ≤ 126) ∧
    (∀ fold ∈ h.folds, fold ≠ [] ∧ findMimeHeaderStart fold = none) ∧ 0 ∉ h.stored)
    ⟨fun h => ⟨h.1, h.2.1, h.2.2.1, h.2.2.2⟩, fun h => ⟨h.1, h.2, h.3, h.4⟩⟩

end MimeHeader

def settleEntity (e : MimeDecEntity) : Option (List UInt8 × List UInt8) → MimeDecEntity
  | none => e
  | some (name, value) => if value = [] then e else fillField e (name.map toLower) value

def entityOf (headers : List MimeHeader) : MimeDecEntity :=
  headers.foldl (fun e h => settleEntity e (some (h.name, h.stored))) .empty

inductive MimeBody
  | base64 (bytes : List UInt8) (lines : List (List UInt8))
  | quoted (lines : List QPLine)
  | plain (lines : List (List UInt8))

namespace MimeBody

def lines : MimeBody → List (List UInt8)
  | base64 _ lines => lines
  | quoted lines => lines.map QPLine.text
  | plain lines => lines

/-- The content of the body. Blank lines are lost where it is not encoded. -/
def content : MimeBody → List UInt8
  | base64 bytes _ => bytes
  | quoted lines => lines.flatMap QPLine.content
  | plain lines => lines.flatMap plainText

def Fits (e : MimeDecEntity) : MimeBody → Prop
  | base64 bytes lines => e.isBase64 = true ∧ lines.flatten = Lib.Base64.encode bytes
  | quoted lines => e.isBase64 = false ∧ e.isQP = true ∧ ∀ line ∈ lines, line.Valid
  | plain _ => e.isBase64 = false ∧ e.isQP = false

instance (e : MimeDecEntity) : (body : MimeBody) → Decidable (body.Fits e)
  | base64 bytes lines =>
    inferInstanceAs (Decidable (e.isBase64 = true ∧ lines.flatten = Lib.Base64.encode bytes))
  | quoted lines =>
    inferInstanceAs (Decidable (e.isBase64 = false ∧ e.isQP = true ∧ ∀ line ∈ lines, line.Valid))
  | plain _ => inferInstanceAs (Decidable (e.isBase64 = false ∧ e.isQP = false))

end MimeBody

mutual

/-- An entity: a leaf with its body, parts between boundaries with the lines before the first and
the blank lines behind the last, or a message of its own. -/
inductive MimePart
  | leaf (headers : List MimeHeader) (body : MimeBody)
  | multipart (headers : List MimeHeader) (boundary : List UInt8) (preamble : List (List UInt8))
      (first : MimePart) (more : MimeParts) (blanks : ℕ)
  | message (headers : List MimeHeader) (inner : MimePart)

inductive MimeParts
  | nil
  | cons (part : MimePart) (more : MimeParts)

end

def headerLines (headers : List MimeHeader) : List (List UInt8) :=
  headers.flatMap MimeHeader.lines ++ [[]]

def lastBoundaryLine (b : List UInt8) : List UInt8 := boundaryLine b ++ bytesOf "--"

mutual

def MimePart.lines : MimePart → List (List UInt8)
  | .leaf headers body => headerLines headers ++ body.lines
  | .multipart headers b preamble first more blanks =>
    headerLines headers ++ (preamble ++ (boundaryLine b :: first.lines ++ (more.lines b ++
      (lastBoundaryLine b :: List.replicate blanks []))))
  | .message headers inner => headerLines headers ++ inner.lines

def MimeParts.lines (b : List UInt8) : MimeParts → List (List UInt8)
  | .nil => []
  | .cons part more => boundaryLine b :: part.lines ++ more.lines b

end

def IsBoundary (b line : List UInt8) : Prop :=
  line.take 2 = bytesOf "--" ∧ (findBuffer line (boundaryLine b)).isSome = true

def IsBodyLine (bnd : Option (List UInt8)) (line : List UInt8) : Prop :=
  line.length < 2 ^ 31 ∧ ∀ b ∈ bnd, ¬IsBoundary b line

instance (b line : List UInt8) : Decidable (IsBoundary b line) :=
  inferInstanceAs (Decidable (_ ∧ _))

instance (bnd : Option (List UInt8)) (line : List UInt8) : Decidable (IsBodyLine bnd line) :=
  inferInstanceAs (Decidable (_ ∧ _))

mutual

/-- What the decoder relies on, for an entity that is a message or none, inside of a boundary or
not. -/
def MimePart.Valid (isEncap : Bool) (bnd : Option (List UInt8)) : MimePart → Prop
  | .leaf headers body =>
    (∀ h ∈ headers, h.Valid) ∧ (entityOf headers).boundary = none ∧
    (entityOf headers).isMessage = false ∧
      body.Fits (entityOf headers).describe ∧ ∀ line ∈ body.lines, IsBodyLine bnd line
  | .multipart headers b preamble first more _ =>
    (∀ h ∈ headers, h.Valid) ∧ (entityOf headers).boundary = some b ∧ b.length + 2 ≤ boundaryBuf ∧
      (entityOf headers).isMessage = false ∧ (entityOf headers).describe.Silent ∧
      (entityOf headers).describe.isBase64 = false ∧ (∀ line ∈ preamble, IsBodyLine (some b) line) ∧
      first.Valid false (some b) ∧ more.Valid b
  | .message headers inner =>
    isEncap = false ∧ (∀ h ∈ headers, h.Valid) ∧ (entityOf headers).boundary = none ∧
      (entityOf headers).isMessage = true ∧ (bnd = none → (entityOf headers).describe.Silent) ∧
      inner.Valid true bnd

def MimeParts.Valid (b : List UInt8) : MimeParts → Prop
  | .nil => True
  | .cons part more => part.Valid false (some b) ∧ more.Valid b

end

mutual

def MimePart.decidableValid (isEncap : Bool) (bnd : Option (List UInt8)) :
    (part : MimePart) → Decidable (part.Valid isEncap bnd)
  | .leaf headers body =>
    inferInstanceAs (Decidable ((∀ h ∈ headers, h.Valid) ∧ (entityOf headers).boundary = none ∧
      (entityOf headers).isMessage = false ∧ body.Fits (entityOf headers).describe ∧
      ∀ line ∈ body.lines, IsBodyLine bnd line))
  | .multipart headers b preamble first more _ =>
    have := first.decidableValid false (some b)
    have := more.decidableValid b
    inferInstanceAs (Decidable ((∀ h ∈ headers, h.Valid) ∧ (entityOf headers).boundary = some b ∧
      b.length + 2 ≤ boundaryBuf ∧ (entityOf headers).isMessage = false ∧
      (entityOf headers).describe.Silent ∧ (entityOf headers).describe.isBase64 = false ∧
      (∀ line ∈ preamble, IsBodyLine (some b) line) ∧ first.Valid false (some b) ∧ more.Valid b))
  | .message headers inner =>
    have := inner.decidableValid true bnd
    inferInstanceAs (Decidable (isEncap = false ∧ (∀ h ∈ headers, h.Valid) ∧
      (entityOf headers).boundary = none ∧ (entityOf headers).isMessage = true ∧
      (bnd = none → (entityOf headers).describe.Silent) ∧ inner.Valid true bnd))

def MimeParts.decidableValid (b : List UInt8) : (parts : MimeParts) → Decidable (parts.Valid b)
  | .nil => isTrue trivial
  | .cons part more =>
    have := part.decidableValid false (some b)
    have := more.decidableValid b
    inferInstanceAs (Decidable (part.Valid false (some b) ∧ more.Valid b))

end

instance (isEncap : Bool) (bnd : Option (List UInt8)) (part : MimePart) :
    Decidable (part.Valid isEncap bnd) :=
  part.decidableValid isEncap bnd

variable {σ : Type} (R : MimeReceiver σ)

def settleData (d : σ) : Option (List UInt8 × List UInt8) → σ
  | none => d
  | some (name, value) => if value = [] then d else R.receiveHeader (name.map toLower) value d

def receiveHeaders (headers : List MimeHeader) (d : σ) : σ :=
  headers.foldl (fun d h => settleData R d (some (h.name, h.stored))) d

mutual

def MimePart.received : MimePart → σ → σ
  | .leaf headers body, d =>
      R.receive (entityOf headers).describe body.content (receiveHeaders R headers d)
  | .multipart headers _ _ first more _, d =>
      more.received (first.received (receiveHeaders R headers d))
  | .message headers inner, d => inner.received (receiveHeaders R headers d)

def MimeParts.received : MimeParts → σ → σ
  | .nil, d => d
  | .cons part more, d => more.received (part.received d)

end

end CloudHands.Mail

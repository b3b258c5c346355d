import CloudHands.Mail.MimeDecoding

/-!
# What a mail session receives

The mail of a tree of entities as the callbacks leave it: every named leaf as an attachment in the
order of the mail, the last text and the last HTML text that are not named.
-/

namespace CloudHands.Mail

open Http

mutual

/-- The leaves of a tree with their contents, in the order of the mail. -/
def MimePart.leaves : MimePart → List (MimeDecEntity × List UInt8)
  | .leaf headers body => [((entityOf headers).describe, body.content)]
  | .multipart _ _ _ first more _ => first.leaves ++ more.leaves
  | .message _ inner => inner.leaves

def MimeParts.leaves : MimeParts → List (MimeDecEntity × List UInt8)
  | .nil => []
  | .cons part more => part.leaves ++ more.leaves

end

def attachmentOf (leaf : MimeDecEntity × List UInt8) : Option MailCtnt :=
  if leaf.1.isAttachment then some ⟨leaf.1.filename, leaf.2, true⟩ else none

def plainTextOf (leaf : MimeDecEntity × List UInt8) : Option MailCtnt :=
  if !leaf.1.isAttachment && leaf.1.isText then some ⟨[], leaf.2, true⟩ else none

def htmlTextOf (leaf : MimeDecEntity × List UInt8) : Option MailCtnt :=
  if !leaf.1.isAttachment && !leaf.1.isText && leaf.1.isHtml then some ⟨[], leaf.2, true⟩ else none

structure FilesAfter (c : MailContents) (leaves : List (MimeDecEntity × List UInt8))
    (c' : MailContents) : Prop where
  attachList : c'.attachList = c.attachList ++ leaves.filterMap attachmentOf
  plain : c'.ctntPlainFile = (leaves.filterMap plainTextOf).getLast?.or c.ctntPlainFile
  html : c'.ctntHtmlFile = (leaves.filterMap htmlTextOf).getLast?.or c.ctntHtmlFile

namespace FilesAfter

theorem of_eq {c c' : MailContents} (hattach : c'.attachList = c.attachList)
    (hplain : c'.ctntPlainFile = c.ctntPlainFile) (hhtml : c'.ctntHtmlFile = c.ctntHtmlFile) :
    FilesAfter c [] c' :=
  ⟨by rw [hattach, List.filterMap_nil, List.append_nil], hplain, hhtml⟩

theorem trans {c c' c'' : MailContents} {leaves leaves' : List (MimeDecEntity × List UInt8)}
    (h : FilesAfter c leaves c') (h' : FilesAfter c' leaves' c'') :
      FilesAfter c (leaves ++ leaves') c'' where
  attachList := by rw [h'.attachList, h.attachList, List.filterMap_append, List.append_assoc]
  plain := by rw [h'.plain, h.plain, List.filterMap_append, List.getLast?_append, Option.or_assoc]
  html := by rw [h'.html, h.html, List.filterMap_append, List.getLast?_append, Option.or_assoc]

theorem header (name value : List UInt8) (c : MailContents) :
    FilesAfter c [] (c.addHeader name value) := by
  rw [MailContents.addHeader]
  split_ifs <;> exact of_eq rfl rfl rfl

theorem headers (headers : List MimeHeader) (c : MailContents) :
    FilesAfter c [] (receiveHeaders mailReceiver headers c) := by
  induction headers generalizing c with
  | nil => exact of_eq rfl rfl rfl
  | cons h headers ih =>
    have hhead : FilesAfter c [] (settleData mailReceiver c (some (h.name, h.stored))) := by
      rw [settleData]
      split_ifs
      · exact of_eq rfl rfl rfl
      · exact header _ _ c
    exact hhead.trans (ih _)

theorem leaf (e : MimeDecEntity) (content : List UInt8) (c : MailContents) :
    FilesAfter c [(e, content)] (c.addContent e true content) := by
  rw [MailContents.addContent]
  split_ifs with hattach htext hhtml
  · exact ⟨by simp [attachmentOf, hattach], by simp [plainTextOf, hattach],
      by simp [htmlTextOf, hattach]⟩
  · exact ⟨by simp [attachmentOf, hattach], by simp [plainTextOf, hattach, htext],
      by simp [htmlTextOf, hattach, htext]⟩
  · exact ⟨by simp [attachmentOf, hattach], by simp [plainTextOf, hattach, htext],
      by simp [htmlTextOf, hattach, htext, hhtml]⟩
  · exact ⟨by simp [attachmentOf, hattach], by simp [plainTextOf, hattach, htext],
      by simp [htmlTextOf, hattach, htext, hhtml]⟩

end FilesAfter

mutual

theorem part_filesAfter : (part : MimePart) → (c : MailContents) →
    FilesAfter c part.leaves (part.received mailReceiver c)
  | .leaf headers _, c => (FilesAfter.headers headers c).trans (.leaf _ _ _)
  | .multipart headers _ _ first more _, c =>
    ((FilesAfter.headers headers c).trans (part_filesAfter first _)).trans (parts_filesAfter more _)
  | .message headers inner, c => (FilesAfter.headers headers c).trans (part_filesAfter inner _)

theorem parts_filesAfter : (parts : MimeParts) → (c : MailContents) →
    FilesAfter c parts.leaves (parts.received mailReceiver c)
  | .nil, _ => .of_eq rfl rfl rfl
  | .cons part more, c => (part_filesAfter part c).trans (parts_filesAfter more _)

end

def attachedMail : MimePart :=
  .multipart [⟨bytesOf "Content-Type", bytesOf " multipart/mixed;", [bytesOf "\tboundary=\"b\""]⟩]
    (bytesOf "b")
    [bytesOf "--a"]
    (.leaf [⟨bytesOf "Content-Type", bytesOf " text/plain", []⟩] (.plain [bytesOf "Hi", [],
      bytesOf "there"]))
    (.cons (.leaf [⟨bytesOf "Content-Type", bytesOf " text/csv; name=\"t.csv\"", []⟩,
        ⟨bytesOf "Content-Transfer-Encoding", bytesOf " base64", []⟩]
      (.base64 (bytesOf "1,2,3") [bytesOf "MSw", [], bytesOf "yLDM="])) .nil) 1

theorem attachedMail_valid : attachedMail.Valid false none := by decide +kernel

end CloudHands.Mail

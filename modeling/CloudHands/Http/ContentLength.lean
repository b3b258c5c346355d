import CloudHands.Http.Segmentation
import CloudHands.Http.Message
import CloudHands.Lib.Pieces

/-!
# Bodies of a given length

A body that is not chunked takes every piece as a whole until it has at least the length that its
headers announce, so it ends where it should only if a piece does.
-/

namespace CloudHands.Http

open Lib

variable {app : App} {dir : Dir}

/-- The passes of the loops over the pieces behind the headers, until the body is complete: the
session and what is left in the input. -/
def bodyRun (app : App) (dir : Dir) (s : HttpSession) :
    List (List UInt8) → Option (HttpSession × List UInt8)
  | [] => some (s, [])
  | piece :: pieces =>
    if s.parsePhase ≠ bodyPhase dir then some (s, piece ++ pieces.flatten)
    else if piece = [] then bodyRun app dir s pieces
    else
      match phaseStep app dir s piece with
      | some (.more s' rest) =>
        if s'.parsePhase = bodyPhase dir then bodyRun app dir s' pieces
        else some (s', rest ++ pieces.flatten)
      | _ => none

/-- The body is the first `n` bytes of the stream, as far as they have arrived, and the message is
complete when they have, with the others left in the input. -/
structure StoresExactly (dir : Dir) (n : ℕ) (stream : List UInt8) (r : HttpSession × List UInt8) :
    Prop where
  content : ((r.1.body dir).getD {}).content = stream.take n
  left : r.2 = stream.drop n
  incomplete_iff : r.1.parsePhase = bodyPhase dir ↔ stream.length < n

/-- The session with `store` of the `want` bytes of its body. -/
structure Filling (dir : Dir) (want : ℕ) (store : List UInt8) (s : HttpSession) : Prop where
  notChunked : (s.headers dir).chunked = false
  length : (s.headers dir).contentLengthN = want
  content : ((s.body dir).getD {}).content = store
  phase : s.parsePhase = if want ≤ store.length then endPhase dir else bodyPhase dir

theorem endPhase_ne_bodyPhase (dir : Dir) : endPhase dir ≠ bodyPhase dir := by cases dir <;> decide

theorem Filling.incomplete_iff {want : ℕ} {store : List UInt8} {s : HttpSession}
    (h : Filling dir want store s) : s.parsePhase = bodyPhase dir ↔ store.length < want := by
  rw [h.phase]
  split
  · rename_i hle
    exact iff_of_false (endPhase_ne_bodyPhase dir) (not_lt.2 hle)
  · rename_i hlt
    exact iff_of_true rfl (not_le.1 hlt)

theorem Filling.append {want : ℕ} {store : List UInt8} {s : HttpSession}
    (h : Filling dir want store s) (hopen : store.length < want) (piece : List UInt8) :
    Filling dir want (store ++ piece) (bodyDirectAppend s dir piece) := by
  have hbody := h.incomplete_iff.2 hopen
  unfold bodyDirectAppend
  simp only [h.content, HttpSession.headers_setBody, h.length]
  split
  · rename_i hle
    refine ⟨?_, ?_, ?_, ?_⟩
    · cases dir <;> exact h.notChunked
    · cases dir <;> exact h.length
    · cases dir <;> rfl
    · rw [if_pos hle]
      rfl
  · rename_i hlt
    refine ⟨?_, ?_, ?_, ?_⟩
    · cases dir <;> exact h.notChunked
    · cases dir <;> exact h.length
    · cases dir <;> rfl
    · rw [if_neg hlt, HttpSession.parsePhase_setBody]
      exact hbody

theorem phaseStep_direct {want : ℕ} {store : List UInt8} {s : HttpSession}
    (h : Filling dir want store s) (hopen : store.length < want) (piece : List UInt8) :
    phaseStep app dir s piece = some (.more (bodyDirectAppend s dir piece) []) := by
  rw [phaseStep, if_pos (h.incomplete_iff.2 hopen), bodyParse, h.notChunked,
    if_neg Bool.false_ne_true]

theorem bodyRun_fill {want : ℕ} {store : List UInt8} {s : HttpSession}
    (h : Filling dir want store s) (pieces : List (List UInt8)) :
    ∃ s', bodyRun app dir s pieces = some (s', (fill want store pieces).2.flatten) ∧
      Filling dir want (fill want store pieces).1 s' := by
  induction pieces generalizing store s with
  | nil => exact ⟨s, rfl, h⟩
  | cons piece pieces ih =>
    rw [bodyRun, fill]
    by_cases hle : want ≤ store.length
    · have hdone : s.parsePhase ≠ bodyPhase dir :=
        fun hbody => absurd (h.incomplete_iff.1 hbody) (not_lt.2 hle)
      rw [if_pos hdone, if_pos hle]
      exact ⟨s, rfl, h⟩
    · have hopen := not_le.1 hle
      rw [if_neg (not_not.2 (h.incomplete_iff.2 hopen)), if_neg hle]
      by_cases hempty : piece = []
      · rw [if_pos hempty, hempty, List.append_nil]
        exact ih h
      · rw [if_neg hempty, phaseStep_direct h hopen]
        have happend := h.append hopen piece
        dsimp only
        split
        · exact ih happend
        · rename_i hdone
          have hle' : want ≤ (store ++ piece).length :=
            not_lt.1 fun hlt => hdone (happend.incomplete_iff.2 hlt)
          have hfill : fill want (store ++ piece) pieces = (store ++ piece, pieces) := by
            cases pieces with
            | nil => rfl
            | cons next pieces => rw [fill, if_pos hle']
          rw [hfill]
          exact ⟨_, rfl, happend⟩

def fieldOf (text : List UInt8) : Option (List UInt8 × List UInt8) :=
  (headerLineParse (rawLine text)).map fun header =>
    (strndup (rawLine text) header.headerNameStart header.headerNameEnd 0,
      strndup (rawLine text) header.headerStart header.headerEnd 0)

def valuesOf (fields : List (List UInt8)) (name : String) : List (List UInt8) :=
  fields.filterMap fun text =>
    (fieldOf text).bind fun field => if strcaseEq field.1 name then some field.2 else none

/-- The message has a Content-Length of `n`, by its last line of that name, and is not chunked. -/
structure Message.Announces (m : Message) (n : ℕ) : Prop where
  length : ∃ val, (valuesOf m.fields "Content-Length").getLast? = some val ∧ val ≠ [] ∧
    readDigits asciiDigit 0 (val.map chr) = some n
  notChunked : ∀ val ∈ valuesOf m.fields "Transfer-Encoding", strncaseEq val "chunked" 7 = false

theorem strcaseEq_unique {key : List UInt8} {name name' : String} (h : strcaseEq key name = true)
    (hne : (bytesOf name).map toLower ≠ (bytesOf name').map toLower) :
      strcaseEq key name' = false := by
  simp only [strcaseEq, decide_eq_true_eq, decide_eq_false_iff_not] at h ⊢
  rw [h]
  exact hne

theorem contentLengthN_headerIndexSet (h : Headers) (key val : List UInt8) :
    (headerIndexSet h key val).contentLengthN =
      if strcaseEq key "Content-Length" then strtoul (val.map chr) else h.contentLengthN := by
  unfold headerIndexSet
  by_cases hconn : strcaseEq key "Connection" = true
  · have hne : strcaseEq key "Content-Length" = false := strcaseEq_unique hconn (by decide)
    rw [if_pos hconn, hne, if_neg Bool.false_ne_true, connectionTypeSet]
    split
    · rfl
    · split <;> rfl
  · rw [if_neg hconn]
    split
    · rfl
    · split
      · split <;> rfl
      · rfl

theorem chunked_headerIndexSet (h : Headers) (key val : List UInt8) :
    (headerIndexSet h key val).chunked =
      (h.chunked || (strcaseEq key "Transfer-Encoding" && strncaseEq val "chunked" 7)) := by
  unfold headerIndexSet
  by_cases hconn : strcaseEq key "Connection" = true
  · have hne : strcaseEq key "Transfer-Encoding" = false := strcaseEq_unique hconn (by decide)
    rw [if_pos hconn, hne, Bool.false_and, Bool.or_false, connectionTypeSet]
    split
    · rfl
    · split <;> rfl
  · rw [if_neg hconn]
    by_cases hlen : strcaseEq key "Content-Length" = true
    · have hne : strcaseEq key "Transfer-Encoding" = false := strcaseEq_unique hlen (by decide)
      rw [if_pos hlen, hne, Bool.false_and, Bool.or_false]
    · rw [if_neg hlen]
      cases strcaseEq key "Transfer-Encoding" <;> cases strncaseEq val "chunked" 7 <;> simp

theorem headers_headerAdd (s : HttpSession) (raw : List UInt8) (header : HeaderLine) :
    (headerAdd s raw header dir).headers dir =
      headerIndexSet
        { s.headers dir with
          headers := (strndup raw header.headerNameStart header.headerNameEnd 0,
            strndup raw header.headerStart header.headerEnd 0) :: (s.headers dir).headers }
        (strndup raw header.headerNameStart header.headerNameEnd 0)
        (strndup raw header.headerStart header.headerEnd 0) := by
  cases dir with
  | request =>
    simp only [headerAdd, requestHeaderIndexSet]
    split
    · rfl
    · split <;> rfl
  | response => rfl

theorem headers_readField {s s' : HttpSession} {text : List UInt8}
    (h : readField dir s text = some s') :
    ∃ key val, fieldOf text = some (key, val) ∧
      (s'.headers dir).contentLengthN =
        (if strcaseEq key "Content-Length" then strtoul (val.map chr)
          else (s.headers dir).contentLengthN) ∧
      (s'.headers dir).chunked = ((s.headers dir).chunked ||
        (strcaseEq key "Transfer-Encoding" && strncaseEq val "chunked" 7)) := by
  unfold readField at h
  split at h
  · simp at h
  · obtain ⟨header, hparse, rfl⟩ := Option.map_eq_some_iff.1 h
    refine ⟨_, _, by rw [fieldOf, hparse, Option.map_some], ?_, ?_⟩
    · rw [headers_headerAdd, contentLengthN_headerIndexSet]
    · rw [headers_headerAdd, chunked_headerIndexSet]

theorem valuesOf_cons {text key val : List UInt8} (h : fieldOf text = some (key, val))
    (fields : List (List UInt8)) (name : String) :
    valuesOf (text :: fields) name =
      if strcaseEq key name then val :: valuesOf fields name else valuesOf fields name := by
  rw [valuesOf, List.filterMap_cons, h, Option.bind_some]
  split <;> simp_all [valuesOf]

theorem headers_fields {s h : HttpSession} {fields : List (List UInt8)}
    (hread : fields.foldlM (readField dir) s = some h) :
    (h.headers dir).contentLengthN =
      ((valuesOf fields "Content-Length").getLast?.map fun val => strtoul (val.map chr)).getD
        (s.headers dir).contentLengthN ∧
    (h.headers dir).chunked = ((s.headers dir).chunked ||
      (valuesOf fields "Transfer-Encoding").any fun val => strncaseEq val "chunked" 7) := by
  induction fields generalizing s with
  | nil =>
    obtain rfl : s = h := by simpa using hread
    exact ⟨rfl, (Bool.or_false _).symm⟩
  | cons text fields ih =>
    rw [List.foldlM_cons] at hread
    obtain ⟨s₁, hfield, hrest⟩ := Option.bind_eq_some_iff.1 hread
    obtain ⟨key, val, hof, hlen, hchunked⟩ := headers_readField hfield
    obtain ⟨hlen', hchunked'⟩ := ih hrest
    rw [valuesOf_cons hof, valuesOf_cons hof]
    constructor
    · rw [hlen', hlen]
      split
      · rw [List.getLast?_cons]
        cases (valuesOf fields "Content-Length").getLast? <;> rfl
      · rfl
    · rw [hchunked', hchunked, Bool.or_assoc]
      split
      · rename_i hkey
        rw [hkey, Bool.true_and, List.any_cons]
      · rename_i hkey
        rw [Bool.not_eq_true] at hkey
        rw [hkey, Bool.false_and, Bool.false_or]

theorem headers_readStart {s s' : HttpSession} {text : List UInt8}
    (h : readStart dir s text = some s') :
    s'.headers dir = s.headers dir ∧ s'.body dir = s.body dir := by
  unfold readStart at h
  split at h
  · simp at h
  · cases dir with
    | request =>
      cases hparse : requestLineParse (rawLine text) with
      | none => simp [hparse] at h
      | some r =>
        simp only [hparse, Option.ite_none_left_eq_some, Option.some.injEq] at h
        obtain ⟨-, rfl⟩ := h
        exact ⟨rfl, rfl⟩
    | response =>
      cases hparse : statusLineParse (rawLine text) with
      | none => simp [hparse] at h
      | some status =>
        simp only [hparse, Option.some.injEq] at h
        subst h
        exact ⟨rfl, rfl⟩

theorem body_readField {s s' : HttpSession} {text : List UInt8}
    (h : readField dir s text = some s') : s'.body dir = s.body dir := by
  unfold readField at h
  split at h
  · simp at h
  · obtain ⟨header, -, rfl⟩ := Option.map_eq_some_iff.1 h
    exact body_headerAdd ..

theorem body_fields {s h : HttpSession} {fields : List (List UInt8)}
    (hread : fields.foldlM (readField dir) s = some h) : h.body dir = s.body dir := by
  induction fields generalizing s with
  | nil =>
    obtain rfl : s = h := by simpa using hread
    rfl
  | cons text fields ih =>
    rw [List.foldlM_cons] at hread
    obtain ⟨s₁, hfield, hrest⟩ := Option.bind_eq_some_iff.1 hread
    exact (ih hrest).trans (body_readField hfield)

theorem filling_head {s h : HttpSession} {m : Message} {n : ℕ} (hheaders : s.headers dir = {})
    (hbody : s.body dir = none) (hhead : m.head dir s = some h) (hn : m.Announces n) :
    Filling dir (min n (2 ^ 64 - 1)) [] (headerEndStateSet h dir) := by
  unfold Message.head at hhead
  split at hhead
  · simp at hhead
  · obtain ⟨s₁, hstart, hfields⟩ := Option.bind_eq_some_iff.1 hhead
    obtain ⟨hsame, hnobody⟩ := headers_readStart hstart
    obtain ⟨hlen, hchunked⟩ := headers_fields hfields
    obtain ⟨val, hlast, hne, hdigits⟩ := hn.length
    have hwant : (h.headers dir).contentLengthN = min n (2 ^ 64 - 1) := by
      rw [hlen, hlast]
      exact strtoul_of_readDigits (by simpa using hne) hdigits
    have hplain : (h.headers dir).chunked = false := by
      rw [hchunked, hsame, hheaders, Bool.false_or, List.any_eq_false]
      exact fun val hval => by rw [hn.notChunked val hval]; exact Bool.false_ne_true
    have hnone : h.body dir = none := (body_fields hfields).trans (hnobody.trans hbody)
    have hphase : (headerEndStateSet h dir).parsePhase =
        if min n (2 ^ 64 - 1) ≤ 0 then endPhase dir else bodyPhase dir := by
      simp only [headerEndStateSet, hasBody, hplain, hwant, Bool.or_false, decide_eq_true_eq]
      split
      · rw [if_neg (by omega)]
      · rw [if_pos (by omega)]
    refine ⟨?_, ?_, ?_, hphase⟩
    · cases dir <;> exact hplain
    · cases dir <;> exact hwant
    · cases dir
      · exact congrArg (fun body : Option Body => (body.getD {}).content) hnone
      · exact congrArg (fun body : Option Body => (body.getD {}).content) hnone

/-- A message with a Content-Length of `n` stores exactly the `n` bytes behind its head, or those
of them that have arrived, and leaves the others, just when the piece that completes its body is
cut there. -/
theorem contentLength_exact_iff (app : App) (dir : Dir) {s h : HttpSession} {m : Message} {n : ℕ}
    (hheaders : s.headers dir = {}) (hbody : s.body dir = none) (hhead : m.head dir s = some h)
    (hn : m.Announces n) (following : List (List UInt8)) :
    (∃ r, bodyRun app dir (headerEndStateSet h dir) following = some r ∧
      StoresExactly dir n following.flatten r) ↔
        CutAt 0 (min n (2 ^ 64 - 1)) n following := by
  obtain ⟨s', hrun, hend⟩ := @bodyRun_fill app dir _ _ _ (filling_head hheaders hbody hhead hn)
    following
  have hzero : min n (2 ^ 64 - 1) = 0 → n = 0 := by omega
  rw [← fill_exact_iff (min_le_left n _) hzero following]
  constructor
  · rintro ⟨r, hr, hexact⟩
    obtain rfl : _ = r := Option.some.inj (hrun.symm.trans hr)
    exact ⟨hend.content.symm.trans hexact.content, hexact.left,
      hend.incomplete_iff.symm.trans hexact.incomplete_iff⟩
  · rintro ⟨hcontent, hleft, hopen⟩
    exact ⟨_, hrun, hend.content.trans hcontent, hleft, hend.incomplete_iff.trans hopen⟩

def lengthMessage (length : String) : Message where
  startLine := bytesOf "POST / HTTP/1.1\r"
  fields := [bytesOf "Host: a\r", bytesOf "content-length: 7\r",
    bytesOf "Content-Length: " ++ bytesOf length ++ [CR]]
  blank := [CR]
  payload := .empty

theorem lengthMessage_exact :
    ∃ h r, (lengthMessage "3").head .request {} = some h ∧
      bodyRun acceptAll .request (headerEndStateSet h .request)
        [[], bytesOf "a", bytesOf "bc", bytesOf "G"] = some r ∧
      StoresExactly .request 3 (bytesOf "abcG") r := by
  have hsome : ((lengthMessage "3").head .request {}).isSome = true := by decide +kernel
  obtain ⟨h, hhead⟩ := Option.isSome_iff_exists.1 hsome
  have hn : (lengthMessage "3").Announces 3 := by
    refine ⟨⟨bytesOf "3", ?_, ?_, ?_⟩, ?_⟩ <;> decide +kernel
  have hcut : CutAt 0 (min 3 (2 ^ 64 - 1)) 3 [[], bytesOf "a", bytesOf "bc", bytesOf "G"] := by
    repeat' rw [cutAt_cons]
    refine ⟨by decide, by decide, by decide, by decide, cutAt_of_le (by decide) []⟩
  obtain ⟨r, hr, hexact⟩ := (contentLength_exact_iff acceptAll .request rfl rfl hhead hn
    [[], bytesOf "a", bytesOf "bc", bytesOf "G"]).2 hcut
  exact ⟨h, r, hhead, hr, hexact⟩

/-- In one piece with the next message the body takes a byte of that as well. -/
theorem overrun_not_exact :
    ¬ ∀ (app : App) (dir : Dir) (s h : HttpSession) (m : Message) (n : ℕ), s.headers dir = {} →
      s.body dir = none → m.head dir s = some h → m.Announces n →
        ∀ following : List (List UInt8),
          ∃ r, bodyRun app dir (headerEndStateSet h dir) following = some r ∧
            StoresExactly dir n following.flatten r := by
  intro hall
  have hsome : ((lengthMessage "1").head .request {}).isSome = true := by decide +kernel
  obtain ⟨h, hhead⟩ := Option.isSome_iff_exists.1 hsome
  have hn : (lengthMessage "1").Announces 1 := by
    refine ⟨⟨bytesOf "1", ?_, ?_, ?_⟩, ?_⟩ <;> decide +kernel
  obtain ⟨r, hr, hexact⟩ := hall acceptAll .request {} h (lengthMessage "1") 1 rfl rfl hhead hn
    [bytesOf "aG"]
  have hleft : (((lengthMessage "1").head .request {}).bind fun h =>
      bodyRun acceptAll .request (headerEndStateSet h .request) [bytesOf "aG"]).map Prod.snd =
        some [] := by
    decide +kernel
  rw [hhead, Option.bind_some, hr, Option.map_some, hexact.left] at hleft
  exact absurd hleft (by decide)

end CloudHands.Http

import CloudHands.Http.Parse

/-!
# The parsers byte by byte

A machine that takes the streams of a connection one byte at a time, each in the state the
bytes before it have left. It does not know where a piece ends. The parsers refine it: a
piece handed to them does what its bytes do one by one, provided that the piece ends no
later than a body of fixed length it runs into, since the direct append takes the whole
rest of a piece.
-/

namespace CloudHands.Http

open Lib

def messageDone : Dir → HttpSession → Bool
  | .request, s => requestDone s
  | .response, s => s.parsePhase = .done

/-- One byte of a message; `remain` is the unfinished line before it. -/
def sessionByte (app : App) (dir : Dir) (s : HttpSession) (remain : List UInt8) (b : UInt8) :
    Option (HttpSession × List UInt8) :=
  if s.parsePhase = bodyPhase dir then
    if (s.headers dir).chunked then
      match sinkByte (getSink s dir) b with
      | none => none
      | some (sink, false) => some (setSink s dir sink, [])
      | some (sink, true) => some (bodyParseStateSet (setSink s dir sink) dir, [])
    else some (bodyDirectAppend s dir [b], [])
  else if b = LF then
    match lineHandle app dir s (remain ++ [b]) with
    | .ok s' => some (s', [])
    | .fail _ => none
  else some (s, remain ++ [b])

/-- `Eats app dir s remain u s' remain'`: the bytes `u` of one message lead from `s` to `s'`. -/
inductive Eats (app : App) (dir : Dir) :
    HttpSession → List UInt8 → List UInt8 → HttpSession → List UInt8 → Prop
  | nil (s : HttpSession) (remain : List UInt8) : Eats app dir s remain [] s remain
  | cons {s s₁ s₂ : HttpSession} {r r₁ r₂ : List UInt8} {b : UInt8} {u : List UInt8} :
      messageDone dir s = false → sessionByte app dir s r b = some (s₁, r₁) →
        Eats app dir s₁ r₁ u s₂ r₂ → Eats app dir s r (b :: u) s₂ r₂

variable {app : App} {dir : Dir}

theorem Eats.trans {s s₁ s₂ : HttpSession} {r r₁ r₂ u v : List UInt8}
    (h : Eats app dir s r u s₁ r₁) (h' : Eats app dir s₁ r₁ v s₂ r₂) :
    Eats app dir s r (u ++ v) s₂ r₂ := by
  induction h with
  | nil s r => exact h'
  | cons hopen hb _ ih => exact .cons hopen hb (ih h')

theorem Eats.snoc {s s₁ s₂ : HttpSession} {r r₁ r₂ u : List UInt8} {b : UInt8}
    (h : Eats app dir s r u s₁ r₁) (hopen : messageDone dir s₁ = false)
    (hb : sessionByte app dir s₁ r₁ b = some (s₂, r₂)) : Eats app dir s r (u ++ [b]) s₂ r₂ :=
  h.trans (.cons hopen hb (.nil s₂ r₂))

def inMessage (dir : Dir) (s : HttpSession) : Prop :=
  s.parsePhase = startPhase dir ∨ s.parsePhase = headerPhase dir ∨ s.parsePhase = bodyPhase dir

theorem messageDone_of_inMessage {s : HttpSession} (h : inMessage dir s) :
    messageDone dir s = false := by
  rcases h with h | h | h <;> cases dir <;>
    simp [messageDone, requestDone, startPhase, headerPhase, bodyPhase, h]

theorem eats_text {s : HttpSession} (hopen : messageDone dir s = false)
    (hphase : s.parsePhase ≠ bodyPhase dir) {text : List UInt8} (htext : LF ∉ text)
    (remain : List UInt8) : Eats app dir s remain text s (remain ++ text) := by
  induction text generalizing remain with
  | nil => simpa using Eats.nil s remain
  | cons b text ih =>
    obtain ⟨hb, hrest⟩ : LF ≠ b ∧ LF ∉ text := by simpa using htext
    have hstep : sessionByte app dir s remain b = some (s, remain ++ [b]) := by
      simp [sessionByte, hphase, hb.symm]
    have htail := ih hrest (remain ++ [b])
    rw [List.append_assoc] at htail
    exact .cons hopen hstep htail

theorem sessionByte_lf {s : HttpSession} (hphase : s.parsePhase ≠ bodyPhase dir)
    (remain : List UInt8) :
    sessionByte app dir s remain LF =
      match lineHandle app dir s (remain ++ [LF]) with
      | .ok s' => some (s', [])
      | .fail _ => none := by
  simp [sessionByte, hphase]

def directFits (dir : Dir) (s : HttpSession) (din : List UInt8) : Bool :=
  s.parsePhase ≠ bodyPhase dir || (s.headers dir).chunked ||
    decide (((s.body dir).getD {}).content.length + din.length ≤ (s.headers dir).contentLengthN)

theorem bodyDirectAppend_append (s : HttpSession) (u v : List UInt8)
    (h : ((s.body dir).getD {}).content.length + u.length < (s.headers dir).contentLengthN) :
    bodyDirectAppend (bodyDirectAppend s dir u) dir v = bodyDirectAppend s dir (u ++ v) := by
  have hu : bodyDirectAppend s dir u =
      s.setBody { ((s.body dir).getD {}) with content := ((s.body dir).getD {}).content ++ u }
        dir := by
    simp only [bodyDirectAppend, HttpSession.headers_setBody, List.length_append]
    rw [if_neg (by omega)]
  rw [hu]
  simp [bodyDirectAppend, List.append_assoc]

theorem bodyDirectAppend_open {s : HttpSession} (hphase : s.parsePhase = bodyPhase dir)
    {u : List UInt8}
    (h : ((s.body dir).getD {}).content.length + u.length < (s.headers dir).contentLengthN) :
    (bodyDirectAppend s dir u).parsePhase = bodyPhase dir ∧
      (bodyDirectAppend s dir u).headers dir = s.headers dir ∧
        (((bodyDirectAppend s dir u).body dir).getD {}).content.length =
          ((s.body dir).getD {}).content.length + u.length := by
  simp only [bodyDirectAppend, HttpSession.headers_setBody, List.length_append]
  rw [if_neg (by omega)]
  simp [hphase]

theorem messageDone_body {s : HttpSession} (hphase : s.parsePhase = bodyPhase dir) :
    messageDone dir s = false :=
  messageDone_of_inMessage (.inr (.inr hphase))

theorem eats_direct {s : HttpSession} (hphase : s.parsePhase = bodyPhase dir)
    (hchunked : (s.headers dir).chunked = false) {din : List UInt8} (hne : din ≠ [])
    (hfits : ((s.body dir).getD {}).content.length + din.length ≤ (s.headers dir).contentLengthN) :
    Eats app dir s [] din (bodyDirectAppend s dir din) [] := by
  induction din generalizing s with
  | nil => exact absurd rfl hne
  | cons b din ih =>
    have hbyte : sessionByte app dir s [] b = some (bodyDirectAppend s dir [b], []) := by
      simp [sessionByte, hphase, hchunked]
    refine .cons (messageDone_body hphase) hbyte ?_
    cases din with
    | nil => exact .nil _ _
    | cons b' din =>
      simp only [List.length_cons] at hfits
      have hlt : ((s.body dir).getD {}).content.length + [b].length <
          (s.headers dir).contentLengthN := by
        simp only [List.length_cons, List.length_nil]
        omega
      obtain ⟨hphase', hheaders, hlen⟩ := bodyDirectAppend_open hphase hlt
      have hrest := ih hphase' (by rw [hheaders, hchunked]) (by simp)
        (by rw [hheaders, hlen]; simp only [List.length_cons, List.length_nil]; omega)
      rw [bodyDirectAppend_append s [b] (b' :: din) hlt] at hrest
      exact hrest

@[simp] theorem getSink_setSink (s : HttpSession) (sink : ChunkSink) :
    getSink (setSink s dir sink) dir = sink := by
  simp [getSink, setSink]

@[simp] theorem setSink_setSink (s : HttpSession) (sink sink' : ChunkSink) :
    setSink (setSink s dir sink) dir sink' = setSink s dir sink' := by
  cases dir <;> rfl

@[simp] theorem parsePhase_setSink (s : HttpSession) (sink : ChunkSink) :
    (setSink s dir sink).parsePhase = s.parsePhase := by
  simp [setSink]

@[simp] theorem chunked_setSink (s : HttpSession) (sink : ChunkSink) :
    ((setSink s dir sink).headers dir).chunked = (s.headers dir).chunked := by
  simp [setSink]

def StepMatches (app : App) (dir : Dir) (s : HttpSession) (din : List UInt8) : StepResult → Prop
  | .wait => Eats app dir s [] din s din
  | .fail _ => ∃ u b rest s₁ r₁, din = u ++ b :: rest ∧ Eats app dir s [] u s₁ r₁ ∧
      messageDone dir s₁ = false ∧ sessionByte app dir s₁ r₁ b = none
  | .more s' rest => ∃ u, din = u ++ rest ∧ u ≠ [] ∧ Eats app dir s [] u s' []

theorem StepMatches.cons {s s₁ : HttpSession} {b : UInt8} {din : List UInt8} {r : StepResult}
    (hopen : messageDone dir s = false) (hb : sessionByte app dir s [] b = some (s₁, []))
    (hwait : r ≠ .wait) (h : StepMatches app dir s₁ din r) :
    StepMatches app dir s (b :: din) r := by
  cases r with
  | wait => exact absurd rfl hwait
  | fail s' =>
    obtain ⟨u, b', rest, s₂, r₂, rfl, heats, hopen', hfail⟩ := h
    exact ⟨b :: u, b', rest, s₂, r₂, rfl, .cons hopen hb heats, hopen', hfail⟩
  | more s' rest =>
    obtain ⟨u, rfl, -, heats⟩ := h
    exact ⟨b :: u, rfl, by simp, .cons hopen hb heats⟩

theorem stepMatches_chunked {s : HttpSession} (hphase : s.parsePhase = bodyPhase dir)
    (hchunked : (s.headers dir).chunked = true) {din : List UInt8} (hne : din ≠ []) :
    StepMatches app dir s din (chunkedEnd s dir (sinkFold (getSink s dir) din)) := by
  induction din generalizing s with
  | nil => exact absurd rfl hne
  | cons b din ih =>
    have hopen := messageDone_body hphase
    have hbyte : sessionByte app dir s [] b =
        match sinkByte (getSink s dir) b with
        | none => none
        | some (sink, false) => some (setSink s dir sink, [])
        | some (sink, true) => some (bodyParseStateSet (setSink s dir sink) dir, []) := by
      simp [sessionByte, hphase, hchunked]
    rw [sinkFold]
    cases hsink : sinkByte (getSink s dir) b with
    | none =>
      rw [hsink] at hbyte
      exact ⟨[], b, din, s, [], rfl, .nil s [], hopen, hbyte⟩
    | some p =>
      obtain ⟨sink, last⟩ := p
      rw [hsink] at hbyte
      cases last with
      | true => exact ⟨[b], rfl, by simp, .cons hopen hbyte (.nil _ _)⟩
      | false =>
        cases din with
        | nil => exact ⟨[b], rfl, by simp, .cons hopen hbyte (.nil _ _)⟩
        | cons b' din =>
          have hrest := ih (s := setSink s dir sink) (by simpa using hphase)
            (by simpa using hchunked) (by simp)
          rw [getSink_setSink] at hrest
          revert hrest
          cases hfold : sinkFold sink (b' :: din) with
          | again sink' =>
            simp only [chunkedEnd, hfold, setSink_setSink]
            exact StepMatches.cons hopen hbyte (by simp)
          | done sink' rest =>
            simp only [chunkedEnd, hfold, setSink_setSink]
            exact StepMatches.cons hopen hbyte (by simp)
          | invalid content n =>
            simp only [chunkedEnd, hfold, setSink_setSink, getSink_setSink]
            exact StepMatches.cons hopen hbyte (by simp)

theorem stepMatches_phaseStep {s : HttpSession} (hopen : messageDone dir s = false)
    (hctx : (getSink s dir).ctx.Ok) {din : List UInt8} (hne : din ≠ [])
    (hfits : directFits dir s din = true) :
    ∃ r, phaseStep app dir s din = some r ∧ StepMatches app dir s din r := by
  rw [phaseStep]
  split
  · rename_i hphase
    rw [bodyParse]
    split
    · rename_i hchunked
      rw [chunkedBodyParse_eq hctx]
      exact ⟨_, rfl, stepMatches_chunked hphase hchunked hne⟩
    · rename_i hchunked
      have hfits' : ((s.body dir).getD {}).content.length + din.length ≤
          (s.headers dir).contentLengthN := by
        simpa [directFits, hphase, hchunked] using hfits
      exact ⟨_, rfl, din, by simp, hne, eats_direct hphase (by simpa using hchunked) hne hfits'⟩
  · rename_i hphase
    cases hline : lineRead din with
    | none =>
      have heats : Eats app dir s [] din s ([] ++ din) :=
        eats_text hopen hphase (lineRead_eq_none.1 hline) []
      exact ⟨.wait, rfl, heats⟩
    | some p =>
      obtain ⟨raw, rest⟩ := p
      obtain ⟨text, htext, rfl, rfl⟩ := lineRead_eq_some hline
      have heats : Eats app dir s [] text s ([] ++ text) := eats_text hopen hphase htext []
      have hlf : sessionByte app dir s text LF = _ := sessionByte_lf hphase text
      simp only
      cases hhandle : lineHandle app dir s (text ++ [LF]) with
      | ok s' =>
        rw [hhandle] at hlf
        exact ⟨.more s' rest, rfl, text ++ [LF], rfl, by simp, heats.snoc hopen hlf⟩
      | fail s' =>
        rw [hhandle] at hlf
        exact ⟨.fail s', rfl, text, LF, rest, s, text, by simp, heats, hopen, hlf⟩

def passed : Dir → HttpSession → Prop
  | .request, s => inMessage .response s
  | .response, s => s.parsePhase = .done

theorem messageDone_of_passed {s : HttpSession} (h : passed dir s) : messageDone dir s = true := by
  cases dir with
  | request =>
    rcases h with h | h | h <;>
      simp [messageDone, requestDone, h, startPhase, headerPhase, bodyPhase]
  | response => simpa [messageDone, passed] using h

theorem passed_endPhase {s : HttpSession} (h : s.parsePhase = endPhase dir) : passed dir s := by
  cases dir with
  | request => exact .inl h
  | response => exact h

structure SessionOk (s : HttpSession) : Prop where
  chunk : ∀ dir, (getSink s dir).ctx.Ok
  notPass : s.isPass = false

theorem SessionOk.fresh : SessionOk {} :=
  ⟨fun dir => by cases dir <;> exact Chunked.Ok.init, rfl⟩

theorem SessionOk.of_body {s s' : HttpSession} (h : SessionOk s)
    (hbody : ∀ dir, s'.body dir = s.body dir) (hpass : s'.isPass = s.isPass) : SessionOk s' := by
  refine ⟨fun dir => ?_, hpass.trans h.notPass⟩
  have hctx := h.chunk dir
  simp only [getSink, hbody dir] at hctx ⊢
  exact hctx

theorem body_headerAdd (s : HttpSession) (raw : List UInt8) (header : HeaderLine) (dir dir' : Dir) :
    (headerAdd s raw header dir).body dir' = s.body dir' := by
  cases dir with
  | request =>
    simp only [headerAdd, requestHeaderIndexSet]
    split
    · cases dir' <;> rfl
    · split <;> cases dir' <;> rfl
  | response => cases dir' <;> rfl

theorem parsePhase_headerAdd (s : HttpSession) (raw : List UInt8) (header : HeaderLine)
    (dir : Dir) : (headerAdd s raw header dir).parsePhase = s.parsePhase := by
  cases dir with
  | request =>
    simp only [headerAdd, requestHeaderIndexSet]
    split
    · rfl
    · split <;> rfl
  | response => rfl

theorem isPass_headerAdd (s : HttpSession) (raw : List UInt8) (header : HeaderLine)
    (dir : Dir) : (headerAdd s raw header dir).isPass = s.isPass := by
  cases dir with
  | request =>
    simp only [headerAdd, requestHeaderIndexSet]
    split
    · rfl
    · split <;> rfl
  | response => rfl

theorem startPhase_ne_bodyPhase (dir : Dir) : startPhase dir ≠ bodyPhase dir := by
  cases dir <;> simp [startPhase, bodyPhase]

theorem headerPhase_ne_bodyPhase (dir : Dir) : headerPhase dir ≠ bodyPhase dir := by
  cases dir <;> simp [headerPhase, bodyPhase]

theorem lineHandle_ok {s s' : HttpSession} {raw : List UInt8} (hs : inMessage dir s)
    (hphase : s.parsePhase ≠ bodyPhase dir) (h : lineHandle app dir s raw = .ok s') :
    (inMessage dir s' ∨ passed dir s') ∧ (∀ dir', s'.body dir' = s.body dir') ∧
      s'.isPass = s.isPass := by
  unfold lineHandle at h
  split at h
  · cases dir with
    | request =>
      simp only [requestLineHandle] at h
      split at h
      · simp at h
      · simp only [LineResult.ok.injEq] at h
        subst h
        refine ⟨?_, fun dir' => by cases dir' <;> rfl, rfl⟩
        simp only [inMessage, passed, startPhase, headerPhase, bodyPhase]
        split <;> simp
    | response =>
      simp only [statusLineHandle] at h
      split at h
      · simp at h
      · simp only [LineResult.ok.injEq] at h
        subst h
        exact ⟨.inl (.inr (.inl rfl)), fun dir' => by cases dir' <;> rfl, rfl⟩
  · rename_i hstart
    have hheader : s.parsePhase = headerPhase dir := by
      rcases hs with h | h | h
      · exact absurd h hstart
      · exact h
      · exact absurd h hphase
    simp only [headerLineHandle] at h
    split at h
    · split at h
      · simp only [LineResult.ok.injEq] at h
        subst h
        refine ⟨?_, fun dir' => by cases dir' <;> rfl, rfl⟩
        by_cases hbody : hasBody s dir
        · exact .inl (.inr (.inr (by simp [headerEndStateSet, hbody])))
        · exact .inr (passed_endPhase (by simp [headerEndStateSet, hbody]))
      · simp at h
    · split at h
      · simp at h
      · simp only [LineResult.ok.injEq] at h
        subst h
        exact ⟨.inl (.inr (.inl (by rw [parsePhase_headerAdd, hheader]))),
          body_headerAdd s raw _ dir, isPass_headerAdd s raw _ dir⟩

structure Cursor (dir : Dir) (s : HttpSession) (remain : List UInt8) : Prop where
  phase : inMessage dir s ∨ passed dir s
  text : LF ∉ remain
  body : s.parsePhase = bodyPhase dir → remain = []
  done : passed dir s → remain = []

theorem Cursor.nil {s : HttpSession} (h : inMessage dir s ∨ passed dir s) : Cursor dir s [] :=
  ⟨h, by simp, fun _ => rfl, fun _ => rfl⟩

theorem Cursor.inMessage {s : HttpSession} {remain : List UInt8} (h : Cursor dir s remain)
    (hopen : messageDone dir s = false) : inMessage dir s := by
  rcases h.phase with hphase | hphase
  · exact hphase
  · simp [messageDone_of_passed hphase] at hopen

theorem body_setSink_ne (s : HttpSession) (sink : ChunkSink) {dir' : Dir} (h : dir' ≠ dir) :
    (setSink s dir sink).body dir' = s.body dir' := by
  cases dir <;> cases dir' <;> first | rfl | exact absurd rfl h

theorem SessionOk.setSink {s : HttpSession} (h : SessionOk s) {sink : ChunkSink}
    (hsink : sink.ctx.Ok) : SessionOk (setSink s dir sink) := by
  refine ⟨fun dir' => ?_, by cases dir <;> exact h.notPass⟩
  by_cases hdir : dir' = dir
  · subst hdir
    rw [getSink_setSink]
    exact hsink
  · have hctx := h.chunk dir'
    simp only [getSink, body_setSink_ne s sink hdir] at hctx ⊢
    exact hctx

theorem sinkByte_ok {sink sink' : ChunkSink} {b : UInt8} {last : Bool} (h : sink.ctx.Ok)
    (hb : sinkByte sink b = some (sink', last)) : sink'.ctx.Ok := by
  unfold sinkByte at hb
  cases hstep : chunkedStep sink.ctx b with
  | next ctx =>
    simp only [hstep, Option.ite_none_left_eq_some, Option.some.injEq, Prod.mk.injEq] at hb
    obtain ⟨hfits, rfl, -⟩ := hb
    exact h.next hstep (Nat.not_lt.1 hfits)
  | data =>
    simp only [hstep, Option.some.injEq, Prod.mk.injEq] at hb
    obtain ⟨rfl, -⟩ := hb
    exact h.consume (chunkedStep_data hstep) 1
  | done =>
    simp only [hstep, Option.some.injEq, Prod.mk.injEq] at hb
    obtain ⟨rfl, -⟩ := hb
    exact ⟨h.size_fits, fun _ =>
      h.size_le (by rcases chunkedStep_done hstep with h | h <;> simp [h]), by simp⟩
  | invalid => simp [hstep] at hb

theorem parsePhase_bodyDirectAppend (s : HttpSession) (dir : Dir) (din : List UInt8) :
    (bodyDirectAppend s dir din).parsePhase = s.parsePhase ∨
      (bodyDirectAppend s dir din).parsePhase = endPhase dir := by
  simp only [bodyDirectAppend]
  split
  · exact .inr rfl
  · exact .inl (by simp)

theorem SessionOk.bodyDirectAppend {s : HttpSession} (h : SessionOk s) (din : List UInt8) :
    SessionOk (bodyDirectAppend s dir din) := by
  have hset : ∀ content, SessionOk (s.setBody ⟨content, ((s.body dir).getD {}).chunk⟩ dir) := by
    intro content
    refine ⟨fun dir' => ?_, by cases dir <;> exact h.notPass⟩
    have hctx : (getSink (s.setBody ⟨content, ((s.body dir).getD {}).chunk⟩ dir) dir').ctx =
        (getSink s dir').ctx := by
      cases dir <;> cases dir' <;> rfl
    rw [hctx]
    exact h.chunk dir'
  simp only [Http.bodyDirectAppend]
  split
  · exact (hset _).of_body (fun dir' => by cases dir' <;> rfl) rfl
  · exact hset _

theorem sessionByte_keeps {s s' : HttpSession} {r r' : List UInt8} {b : UInt8}
    (hok : SessionOk s) (hcur : Cursor dir s r) (hopen : messageDone dir s = false)
    (h : sessionByte app dir s r b = some (s', r')) : SessionOk s' ∧ Cursor dir s' r' := by
  unfold sessionByte at h
  split at h
  · rename_i hphase
    split at h
    · cases hsink : sinkByte (getSink s dir) b with
      | none => simp [hsink] at h
      | some p =>
        obtain ⟨sink, last⟩ := p
        have hctx := sinkByte_ok (hok.chunk dir) hsink
        cases last with
        | false =>
          simp only [hsink, Option.some.injEq, Prod.mk.injEq] at h
          obtain ⟨rfl, rfl⟩ := h
          exact ⟨hok.setSink hctx, .nil (.inl (.inr (.inr (by simpa using hphase))))⟩
        | true =>
          simp only [hsink, Option.some.injEq, Prod.mk.injEq] at h
          obtain ⟨rfl, rfl⟩ := h
          refine ⟨?_, .nil (.inr (passed_endPhase rfl))⟩
          have hsink' : SessionOk (setSink s dir sink) := hok.setSink hctx
          exact hsink'.of_body (fun dir' => by cases dir' <;> rfl) rfl
    · simp only [Option.some.injEq, Prod.mk.injEq] at h
      obtain ⟨rfl, rfl⟩ := h
      refine ⟨hok.bodyDirectAppend [b], .nil ?_⟩
      rcases parsePhase_bodyDirectAppend s dir [b] with h | h
      · exact .inl (.inr (.inr (h.trans hphase)))
      · exact .inr (passed_endPhase h)
  · rename_i hphase
    split at h
    · cases hline : lineHandle app dir s (r ++ [b]) with
      | fail s₁ => simp [hline] at h
      | ok s₁ =>
        simp only [hline, Option.some.injEq, Prod.mk.injEq] at h
        obtain ⟨rfl, rfl⟩ := h
        obtain ⟨hnext, hbody, hpass⟩ := lineHandle_ok (hcur.inMessage hopen) hphase hline
        exact ⟨hok.of_body hbody hpass, .nil hnext⟩
    · rename_i hb
      simp only [Option.some.injEq, Prod.mk.injEq] at h
      obtain ⟨rfl, rfl⟩ := h
      refine ⟨hok, hcur.phase, ?_, fun h => absurd h hphase, fun h => ?_⟩
      · simpa [hcur.text] using Ne.symm hb
      · simp [messageDone_of_passed h] at hopen

theorem Eats.keeps {s s' : HttpSession} {r r' u : List UInt8} (h : Eats app dir s r u s' r')
    (hok : SessionOk s) (hcur : Cursor dir s r) : SessionOk s' ∧ Cursor dir s' r' := by
  induction h with
  | nil s r => exact ⟨hok, hcur⟩
  | cons hopen hb _ ih =>
    obtain ⟨hok₁, hcur₁⟩ := sessionByte_keeps hok hcur hopen hb
    exact ih hok₁ hcur₁

def requestPlace (e : Entry) (s : HttpSession) (remain : List UInt8) : Entry :=
  if requestDone s then
    { e with reqs := e.reqs ++ [s], curReq := none, reqRemain := remain }
  else { e with curReq := some s, reqRemain := remain }

def requestByte (app : App) (e : Entry) (b : UInt8) : Option Entry :=
  match sessionByte app .request (e.curReq.getD {}) e.reqRemain b with
  | none => none
  | some (s, remain) => some (requestPlace e s remain)

def responsePlace (e : Entry) (s : HttpSession) (pending : List HttpSession)
    (remain : List UInt8) : Entry :=
  if s.parsePhase = .done then
    { e with reqs := pending, stored := sessionStore e.stored s, resRemain := remain }
  else { e with reqs := s :: pending, resRemain := remain }

def responseVerdict (s : HttpSession) : Verdict :=
  if s.parsePhase = .done then if isKeepalive s then .continue else .done else .continue

def responseByte (app : App) (e : Entry) (b : UInt8) : Option (Entry × Verdict) :=
  match e.reqs with
  | [] => none
  | s :: pending =>
    match sessionByte app .response s e.resRemain b with
    | none => none
    | some (s', remain) => some (responsePlace e s' pending remain, responseVerdict s')

def byteFeed (app : App) (c : Conn) (event : Dir × UInt8) : Conn :=
  match c with
  | .closed n stored => .closed n stored
  | .running e reqVerdict resVerdict =>
    match event.1 with
    | .request =>
      match requestByte app e event.2 with
      | none => .close e
      | some e' => .running e' .continue resVerdict
    | .response =>
      match responseByte app e event.2 with
      | none => .close e
      | some (e', v) => .running e' reqVerdict v

def bytesFeed (app : App) (c : Conn) (dir : Dir) (data : List UInt8) : Conn :=
  (data.map (Prod.mk dir)).foldl (byteFeed app) c

theorem bytesFeed_cons (c : Conn) (b : UInt8) (data : List UInt8) :
    bytesFeed app c dir (b :: data) = bytesFeed app (byteFeed app c (dir, b)) dir data :=
  rfl

theorem bytesFeed_append (c : Conn) (u v : List UInt8) :
    bytesFeed app c dir (u ++ v) = bytesFeed app (bytesFeed app c dir u) dir v := by
  simp [bytesFeed]

@[simp] theorem bytesFeed_closed (n : ℕ) (stored : List HttpSession) (data : List UInt8) :
    bytesFeed app (.closed n stored) dir data = .closed n stored := by
  induction data with
  | nil => rfl
  | cons b data ih => exact ih

theorem requestPlace_open {s : HttpSession} (h : requestDone s = false) (e : Entry)
    (remain : List UInt8) :
    requestPlace e s remain = { e with curReq := some s, reqRemain := remain } := by
  simp [requestPlace, h]

theorem foldlM_requestByte {s s' : HttpSession} {r r' u : List UInt8}
    (h : Eats app .request s r u s' r') (e : Entry) :
    u.foldlM (requestByte app) (requestPlace e s r) = some (requestPlace e s' r') := by
  induction h with
  | nil s r => rfl
  | @cons s₀ s₁ s₂ r₀ r₁ r₂ b u hopen hb _ ih =>
    have hbyte : requestByte app (requestPlace e s₀ r₀) b = some (requestPlace e s₁ r₁) := by
      rw [requestPlace_open hopen]
      simp only [requestByte, Option.getD_some, hb, requestPlace]
    rw [List.foldlM_cons, hbyte]
    exact ih

theorem bytesFeed_of_requestByte {e e' : Entry} {u : List UInt8}
    (h : u.foldlM (requestByte app) e = some e') (v : Verdict) :
    bytesFeed app (.running e .continue v) .request u = .running e' .continue v := by
  induction u generalizing e with
  | nil =>
    obtain rfl : e = e' := by simpa using h
    rfl
  | cons b u ih =>
    rw [List.foldlM_cons] at h
    obtain ⟨e₁, hb, hrest⟩ := Option.bind_eq_some_iff.1 h
    have hbyte : byteFeed app (.running e .continue v) (.request, b) =
        .running e₁ .continue v := by
      simp [byteFeed, hb]
    rw [bytesFeed_cons, hbyte, ih hrest]

theorem bytesFeed_request {s s' : HttpSession} {r r' u : List UInt8}
    (h : Eats app .request s r u s' r') (e : Entry) (v : Verdict) :
    bytesFeed app (.running (requestPlace e s r) .continue v) .request u =
      .running (requestPlace e s' r') .continue v :=
  bytesFeed_of_requestByte (foldlM_requestByte h e) v

theorem byteFeed_request_fail {s : HttpSession} {r : List UInt8} {b : UInt8}
    (hopen : messageDone .request s = false) (hb : sessionByte app .request s r b = none)
    (e : Entry) (v : Verdict) :
    byteFeed app (.running (requestPlace e s r) .continue v) (.request, b) = .close e := by
  rw [requestPlace_open hopen]
  simp [byteFeed, requestByte, hb, Conn.close]

theorem responsePlace_open {s : HttpSession} (h : messageDone .response s = false) (e : Entry)
    (pending : List HttpSession) (remain : List UInt8) :
    responsePlace e s pending remain = { e with reqs := s :: pending, resRemain := remain } := by
  have hphase : s.parsePhase ≠ .done := by simpa [messageDone] using h
  simp [responsePlace, hphase]

def responseStep (app : App) (st : Entry × Verdict) (b : UInt8) : Option (Entry × Verdict) :=
  responseByte app st.1 b

theorem foldlM_responseStep {s s' : HttpSession} {r r' u : List UInt8}
    (h : Eats app .response s r u s' r') (e : Entry) (pending : List HttpSession) :
    u.foldlM (responseStep app) (responsePlace e s pending r, responseVerdict s) =
      some (responsePlace e s' pending r', responseVerdict s') := by
  induction h with
  | nil s r => rfl
  | @cons s₀ s₁ s₂ r₀ r₁ r₂ b u hopen hb _ ih =>
    have hbyte : responseStep app (responsePlace e s₀ pending r₀, responseVerdict s₀) b =
        some (responsePlace e s₁ pending r₁, responseVerdict s₁) := by
      rw [responsePlace_open hopen]
      simp only [responseStep, responseByte, hb, responsePlace]
    rw [List.foldlM_cons, hbyte]
    exact ih

theorem bytesFeed_of_responseStep {st st' : Entry × Verdict} {u : List UInt8}
    (h : u.foldlM (responseStep app) st = some st') (v : Verdict) :
    bytesFeed app (.running st.1 v st.2) .response u = .running st'.1 v st'.2 := by
  induction u generalizing st with
  | nil =>
    obtain rfl : st = st' := by simpa using h
    rfl
  | cons b u ih =>
    rw [List.foldlM_cons] at h
    obtain ⟨st₁, hb, hrest⟩ := Option.bind_eq_some_iff.1 h
    have hbyte : byteFeed app (.running st.1 v st.2) (.response, b) = .running st₁.1 v st₁.2 := by
      simp only [responseStep] at hb
      simp [byteFeed, hb]
    rw [bytesFeed_cons, hbyte, ih hrest]

theorem bytesFeed_response {s s' : HttpSession} {r r' u : List UInt8}
    (h : Eats app .response s r u s' r') (e : Entry) (pending : List HttpSession) (v : Verdict) :
    bytesFeed app (.running (responsePlace e s pending r) v (responseVerdict s)) .response u =
      .running (responsePlace e s' pending r') v (responseVerdict s') :=
  bytesFeed_of_responseStep (foldlM_responseStep h e pending) v

theorem byteFeed_response_fail {s : HttpSession} {r : List UInt8} {b : UInt8}
    (hopen : messageDone .response s = false) (hb : sessionByte app .response s r b = none)
    (e : Entry) (pending : List HttpSession) (v w : Verdict) :
    byteFeed app (.running (responsePlace e s pending r) v w) (.response, b) =
      .close { e with reqs := s :: pending } := by
  rw [responsePlace_open hopen]
  simp [byteFeed, responseByte, hb, Conn.close]

end CloudHands.Http

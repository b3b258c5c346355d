import CloudHands.Http.Bytewise

/-!
# Messages on the wire

What a stream of HTTP messages is, apart from any parser: a start line, header lines, an
empty line, and a body that is empty, of the length its headers announce, or in chunks.
The bytes of such a message lead a session from the start of the message behind its end,
and leave in it what the message says.
-/

namespace CloudHands.Http

variable {app : App} {dir : Dir}

/-- The value of hexadecimal digits behind digits of value `acc`. -/
def hexNumber (acc : ℕ) : List UInt8 → Option ℕ
  | [] => some acc
  | ch :: digits =>
    match hexValue ch with
    | none => none
    | some d => hexNumber (acc * 16 + d) digits

def isText (text : List UInt8) : Bool := CR ∉ text && LF ∉ text

def isExtension (ext : List UInt8) : Bool :=
  isText ext &&
    match ext with
    | [] => true
    | ch :: _ => chr ch = ';' || chr ch = ' ' || chr ch = '\t'

structure Chunk where
  digits : List UInt8
  ext : List UInt8
  data : List UInt8
deriving DecidableEq

def Chunk.wire (chunk : Chunk) : List UInt8 :=
  chunk.digits ++ chunk.ext ++ [CR, LF] ++ chunk.data ++ [CR, LF]

def Chunk.isValid (chunk : Chunk) : Bool :=
  chunk.digits ≠ [] && hexNumber 0 chunk.digits = some chunk.data.length && chunk.data ≠ [] &&
    decide (chunk.data.length ≤ maxOffT / 16) && isExtension chunk.ext

structure ChunkedBody where
  chunks : List Chunk
  lastDigits : List UInt8
  lastExt : List UInt8
  trailers : List (List UInt8)
deriving DecidableEq

def ChunkedBody.wire (body : ChunkedBody) : List UInt8 :=
  body.chunks.flatMap Chunk.wire ++ body.lastDigits ++ body.lastExt ++ [CR, LF] ++
    body.trailers.flatMap (· ++ [CR, LF]) ++ [CR, LF]

def ChunkedBody.appendTo (body : ChunkedBody) (sink : ChunkSink) : ChunkSink :=
  body.chunks.foldl (fun sink chunk => sink.append chunk.data) sink

def ChunkedBody.isValid (body : ChunkedBody) : Bool :=
  body.chunks.all Chunk.isValid && body.lastDigits ≠ [] &&
    hexNumber 0 body.lastDigits = some 0 && isExtension body.lastExt &&
    body.trailers.all fun trailer => trailer ≠ [] && isText trailer

theorem toNat_chr (b : UInt8) : (chr b).toNat = b.toNat := by
  have hlt := b.toNat_lt
  have hvalid : b.toNat.isValidChar := .inl (by omega)
  rw [chr, Char.ofNat, dif_pos hvalid]
  rfl

theorem hexValue_of_blank {ch : UInt8} (h : chr ch = ';' ∨ chr ch = ' ' ∨ chr ch = '\t') :
    hexValue ch = none := by
  have htoNat := toNat_chr ch
  have hch : ch = 59 ∨ ch = 32 ∨ ch = 9 := by
    rcases h with h | h | h
    · exact .inl (UInt8.toNat_inj.1 (by rw [← htoNat, h]; rfl))
    · exact .inr (.inl (UInt8.toNat_inj.1 (by rw [← htoNat, h]; rfl)))
    · exact .inr (.inr (UInt8.toNat_inj.1 (by rw [← htoNat, h]; rfl)))
  rcases hch with rfl | rfl | rfl <;> decide

theorem le_of_hexNumber {acc n : ℕ} {digits : List UInt8} (h : hexNumber acc digits = some n) :
    acc ≤ n := by
  induction digits generalizing acc with
  | nil =>
    obtain rfl : acc = n := by simpa [hexNumber] using h
    exact le_rfl
  | cons ch digits ih =>
    rw [hexNumber] at h
    cases hd : hexValue ch with
    | none => simp [hd] at h
    | some d =>
      rw [hd] at h
      have := ih h
      omega

theorem sinkFold_next {ctx ctx' : Chunked} {ch : UInt8} (h : chunkedStep ctx ch = .next ctx')
    (hsize : ctx'.size ≤ maxOffT / 16) (content : List UInt8) (len : ℕ) (rest : List UInt8) :
    sinkFold ⟨ctx, content, len⟩ (ch :: rest) = sinkFold ⟨ctx', content, len⟩ rest := by
  have hfits : ¬ ctx'.size > maxOffT - 5 := by
    unfold maxOffT at *
    omega
  simp [sinkFold, sinkByte, h, hfits]

variable (content : List UInt8) (len : ℕ)

theorem sinkFold_digits {acc n : ℕ} {digits : List UInt8} (h : hexNumber acc digits = some n)
    (hn : n ≤ maxOffT / 16) (rest : List UInt8) :
    sinkFold ⟨⟨acc, .chunkSize⟩, content, len⟩ (digits ++ rest) =
      sinkFold ⟨⟨n, .chunkSize⟩, content, len⟩ rest := by
  induction digits generalizing acc with
  | nil =>
    obtain rfl : acc = n := by simpa [hexNumber] using h
    rfl
  | cons ch digits ih =>
    have hacc := le_of_hexNumber h
    rw [hexNumber] at h
    cases hd : hexValue ch with
    | none => simp [hd] at h
    | some d =>
      rw [hd] at h
      have hstep : chunkedStep ⟨acc, .chunkSize⟩ ch = .next ⟨acc * 16 + d, .chunkSize⟩ := by
        have hsmall : ¬ acc > maxOffT / 16 := by omega
        simp [chunkedStep, hsmall, hd]
      rw [List.cons_append, sinkFold_next hstep ((le_of_hexNumber h).trans hn)]
      exact ih h

theorem sinkFold_size {size n : ℕ} {digits : List UInt8} (hne : digits ≠ [])
    (h : hexNumber 0 digits = some n) (hn : n ≤ maxOffT / 16) (rest : List UInt8) :
    sinkFold ⟨⟨size, .chunkStart⟩, content, len⟩ (digits ++ rest) =
      sinkFold ⟨⟨n, .chunkSize⟩, content, len⟩ rest := by
  cases digits with
  | nil => exact absurd rfl hne
  | cons ch digits =>
    rw [hexNumber] at h
    cases hd : hexValue ch with
    | none => simp [hd] at h
    | some d =>
      simp only [hd, Nat.zero_mul, Nat.zero_add] at h
      have hstep : chunkedStep ⟨size, .chunkStart⟩ ch = .next ⟨d, .chunkSize⟩ := by
        simp [chunkedStep, hd]
      rw [List.cons_append, sinkFold_next hstep ((le_of_hexNumber h).trans hn)]
      exact sinkFold_digits content len h hn rest

theorem sinkFold_skip {n : ℕ} {text : List UInt8} {here cr lf : ChunkState}
    (hstep : ∀ ch, chunkedStep ⟨n, here⟩ ch = skipLine ⟨n, here⟩ ch cr lf)
    (hcr : ∀ ch, chunkedStep ⟨n, cr⟩ ch = expectLF ⟨n, cr⟩ ch lf)
    (hn : n ≤ maxOffT / 16) (htext : isText text = true) (rest : List UInt8) :
    sinkFold ⟨⟨n, here⟩, content, len⟩ (text ++ CR :: LF :: rest) =
      sinkFold ⟨⟨n, lf⟩, content, len⟩ rest := by
  induction text with
  | nil =>
    have hCR : chunkedStep ⟨n, here⟩ CR = .next ⟨n, cr⟩ := by simp [hstep, skipLine]
    have hLF : chunkedStep ⟨n, cr⟩ LF = .next ⟨n, lf⟩ := by simp [hcr, expectLF]
    rw [List.nil_append, sinkFold_next hCR hn, sinkFold_next hLF hn]
  | cons ch text ih =>
    simp only [isText, List.mem_cons, not_or, Bool.and_eq_true, decide_eq_true_eq] at htext
    obtain ⟨⟨hCR, htextCR⟩, hLF, htextLF⟩ := htext
    have hch : chunkedStep ⟨n, here⟩ ch = .next ⟨n, here⟩ := by
      simp [hstep, skipLine, Ne.symm hCR, Ne.symm hLF]
    rw [List.cons_append, sinkFold_next hch hn]
    exact ih (by simp [isText, htextCR, htextLF])

theorem sinkFold_sizeEnd {n : ℕ} {ext : List UInt8} {cr lf skip : ChunkState}
    (hsize : ∀ ch, hexValue ch = none → chunkedStep ⟨n, .chunkSize⟩ ch =
      sizeEnd ⟨n, .chunkSize⟩ ch cr lf skip)
    (hskip : ∀ ch, chunkedStep ⟨n, skip⟩ ch = skipLine ⟨n, skip⟩ ch cr lf)
    (hcr : ∀ ch, chunkedStep ⟨n, cr⟩ ch = expectLF ⟨n, cr⟩ ch lf)
    (hn : n ≤ maxOffT / 16) (hext : isExtension ext = true) (rest : List UInt8) :
    sinkFold ⟨⟨n, .chunkSize⟩, content, len⟩ (ext ++ CR :: LF :: rest) =
      sinkFold ⟨⟨n, lf⟩, content, len⟩ rest := by
  cases ext with
  | nil =>
    have hCR : chunkedStep ⟨n, .chunkSize⟩ CR = .next ⟨n, cr⟩ := by
      simp [hsize CR (by decide), sizeEnd]
    have hLF : chunkedStep ⟨n, cr⟩ LF = .next ⟨n, lf⟩ := by simp [hcr, expectLF]
    rw [List.nil_append, sinkFold_next hCR hn, sinkFold_next hLF hn]
  | cons ch ext =>
    rw [isExtension, Bool.and_eq_true] at hext
    obtain ⟨htext, hfirst⟩ := hext
    simp only [isText, List.mem_cons, not_or, Bool.and_eq_true, decide_eq_true_eq] at htext
    obtain ⟨⟨hCR, htextCR⟩, hLF, htextLF⟩ := htext
    have hblank : chr ch = ';' ∨ chr ch = ' ' ∨ chr ch = '\t' := by
      simpa [or_assoc] using hfirst
    have hnone : hexValue ch = none := hexValue_of_blank hblank
    have hch : chunkedStep ⟨n, .chunkSize⟩ ch = .next ⟨n, skip⟩ := by
      simp [hsize ch hnone, sizeEnd, Ne.symm hCR, Ne.symm hLF, hblank]
    rw [List.cons_append, sinkFold_next hch hn]
    exact sinkFold_skip content len hskip hcr hn (by simp [isText, htextCR, htextLF]) rest

theorem sinkFold_chunk {size : ℕ} {chunk : Chunk} (h : chunk.isValid = true) (rest : List UInt8) :
    sinkFold ⟨⟨size, .chunkStart⟩, content, len⟩ (chunk.wire ++ rest) =
      sinkFold (ChunkSink.append ⟨⟨0, .chunkStart⟩, content, len⟩ chunk.data) rest := by
  obtain ⟨digits, ext, data⟩ := chunk
  simp only [Chunk.isValid, Bool.and_eq_true, decide_eq_true_eq] at h
  obtain ⟨⟨⟨⟨hdigits, hvalue⟩, hdata⟩, hn⟩, hext⟩ := h
  have hpos := List.length_pos_of_ne_nil hdata
  have hwire : Chunk.wire ⟨digits, ext, data⟩ ++ rest =
      digits ++ (ext ++ CR :: LF :: (data ++ CR :: LF :: rest)) := by
    simp [Chunk.wire]
  have hend : ∀ ch, hexValue ch = none → chunkedStep ⟨data.length, .chunkSize⟩ ch =
      sizeEnd ⟨data.length, .chunkSize⟩ ch .chunkExtensionAlmostDone .chunkData
        .chunkExtension := by
    intro ch hnone
    have hsmall : ¬ data.length > maxOffT / 16 := by omega
    simp [chunkedStep, hsmall, hnone, hdata]
  rw [hwire, sinkFold_size content len hdigits hvalue hn,
    sinkFold_sizeEnd content len hend (fun _ => rfl) (fun _ => rfl) hn hext]
  obtain ⟨n, hlen⟩ := Nat.exists_eq_succ_of_ne_zero hpos.ne'
  have hcopy := @sinkFold_data ⟨⟨data.length, .chunkData⟩, content, len⟩ rfl n
    (data ++ CR :: LF :: rest) (show n < data.length by omega)
    (by simp only [List.length_append]; omega)
  have henter : Chunked.enter (Chunked.consume ⟨data.length, .chunkData⟩ (n + 1)) =
      ⟨0, .afterData⟩ := by
    simp [Chunked.enter, Chunked.consume, ← Nat.succ_eq_add_one, ← hlen]
  rw [hcopy, henter, ← Nat.succ_eq_add_one, ← hlen, List.take_left, List.drop_left]
  exact sinkFold_skip _ _ (fun _ => rfl) (fun _ => rfl) (Nat.zero_le _)
    (show isText [] = true from rfl) rest

theorem sinkFold_chunks {chunks : List Chunk} (h : ∀ chunk ∈ chunks, chunk.isValid = true)
    (rest : List UInt8) :
    sinkFold ⟨⟨0, .chunkStart⟩, content, len⟩ (chunks.flatMap Chunk.wire ++ rest) =
      sinkFold (chunks.foldl (fun sink chunk => sink.append chunk.data)
        ⟨⟨0, .chunkStart⟩, content, len⟩) rest := by
  induction chunks generalizing content len with
  | nil => rfl
  | cons chunk chunks ih =>
    obtain ⟨hchunk, hchunks⟩ := List.forall_mem_cons.1 h
    rw [List.flatMap_cons, List.append_assoc, sinkFold_chunk content len hchunk]
    exact ih _ _ hchunks

theorem sinkFold_trailers {trailers : List (List UInt8)}
    (h : ∀ trailer ∈ trailers, trailer ≠ [] ∧ isText trailer = true) (rest : List UInt8) :
    sinkFold ⟨⟨0, .trailer⟩, content, len⟩ (trailers.flatMap (· ++ [CR, LF]) ++ CR :: LF :: rest) =
      .done ⟨⟨0, .chunkStart⟩, content, len⟩ rest := by
  induction trailers with
  | nil =>
    have hCR : chunkedStep ⟨0, .trailer⟩ CR = .next ⟨0, .trailerAlmostDone⟩ := rfl
    have hLF : chunkedStep ⟨0, .trailerAlmostDone⟩ LF = .done := rfl
    rw [List.flatMap_nil, List.nil_append, sinkFold_next hCR (Nat.zero_le _)]
    simp [sinkFold, sinkByte, hLF]
  | cons trailer trailers ih =>
    obtain ⟨⟨hne, htext⟩, htrailers⟩ := List.forall_mem_cons.1 h
    cases trailer with
    | nil => exact absurd rfl hne
    | cons ch text =>
      simp only [isText, List.mem_cons, not_or, Bool.and_eq_true, decide_eq_true_eq] at htext
      obtain ⟨⟨hCR, htextCR⟩, hLF, htextLF⟩ := htext
      have hch : chunkedStep ⟨0, .trailer⟩ ch = .next ⟨0, .trailerHeader⟩ := by
        simp [chunkedStep, Ne.symm hCR, Ne.symm hLF]
      simp only [List.flatMap_cons, List.append_assoc, List.cons_append, List.nil_append]
      rw [sinkFold_next hch (Nat.zero_le _), sinkFold_skip content len (fun _ => rfl)
        (fun _ => rfl) (Nat.zero_le _) (show isText text = true by simp [isText, htextCR, htextLF])]
      exact ih htrailers

theorem sinkFold_chunkedBody {body : ChunkedBody} (h : body.isValid = true) (rest : List UInt8) :
    sinkFold ⟨⟨0, .chunkStart⟩, content, len⟩ (body.wire ++ rest) =
      .done (body.appendTo ⟨⟨0, .chunkStart⟩, content, len⟩) rest := by
  obtain ⟨chunks, lastDigits, lastExt, trailers⟩ := body
  simp only [ChunkedBody.isValid, Bool.and_eq_true, List.all_eq_true, decide_eq_true_eq] at h
  obtain ⟨⟨⟨⟨hchunks, hdigits⟩, hvalue⟩, hext⟩, htrailers⟩ := h
  have hwire : ChunkedBody.wire ⟨chunks, lastDigits, lastExt, trailers⟩ ++ rest =
      chunks.flatMap Chunk.wire ++ (lastDigits ++ (lastExt ++ CR :: LF ::
        (trailers.flatMap (· ++ [CR, LF]) ++ CR :: LF :: rest))) := by
    simp [ChunkedBody.wire]
  have hend : ∀ ch, hexValue ch = none → chunkedStep ⟨0, .chunkSize⟩ ch =
      sizeEnd ⟨0, .chunkSize⟩ ch .lastChunkExtensionAlmostDone .trailer .lastChunkExtension := by
    intro ch hnone
    simp [chunkedStep, hnone]
  rw [hwire, sinkFold_chunks content len hchunks, ChunkedBody.appendTo]
  have hctx : ∀ (chunks : List Chunk) (sink : ChunkSink),
      (chunks.foldl (fun sink chunk => sink.append chunk.data) sink).ctx = sink.ctx := by
    intro chunks
    induction chunks with
    | nil => exact fun _ => rfl
    | cons chunk chunks ih => exact fun sink => ih _
  generalize hsink : chunks.foldl (fun sink chunk => sink.append chunk.data)
    (⟨⟨0, .chunkStart⟩, content, len⟩ : ChunkSink) = sink
  have hstart : sink.ctx = ⟨0, .chunkStart⟩ := by rw [← hsink, hctx]
  obtain ⟨ctx, content', len'⟩ := sink
  obtain rfl : ctx = ⟨0, .chunkStart⟩ := hstart
  rw [sinkFold_size content' len' hdigits hvalue (Nat.zero_le _),
    sinkFold_sizeEnd content' len' hend (fun _ => rfl) (fun _ => rfl) (Nat.zero_le _) hext]
  exact sinkFold_trailers content' len' htrailers rest

inductive Payload
  | empty
  | fixed (content : List UInt8)
  | chunked (body : ChunkedBody)
deriving DecidableEq

def Payload.wire : Payload → List UInt8
  | .empty => []
  | .fixed content => content
  | .chunked body => body.wire

/-- A message; its lines are given without their line feeds. -/
structure Message where
  startLine : List UInt8
  fields : List (List UInt8)
  blank : List UInt8
  payload : Payload
deriving DecidableEq

def rawLine (text : List UInt8) : List UInt8 := text ++ [LF]

def Message.headWire (m : Message) : List UInt8 :=
  rawLine m.startLine ++ (m.fields.flatMap rawLine ++ rawLine m.blank)

def Message.wire (m : Message) : List UInt8 := m.headWire ++ m.payload.wire

/-- What the start line of a message with headers puts into a session. -/
def readStart (dir : Dir) (s : HttpSession) (text : List UInt8) : Option HttpSession :=
  if LF ∈ text then none
  else
    match dir with
    | .request =>
      match requestLineParse (rawLine text) with
      | none => none
      | some r =>
        if r.httpMajor * 1000 + r.httpMinor = 9 then none
        else some { requestLineSet s (rawLine text) r with parsePhase := .reqHeader }
    | .response =>
      match statusLineParse (rawLine text) with
      | none => none
      | some status => some { s with parsePhase := .resHeader, statusCode := status.code }

def readField (dir : Dir) (s : HttpSession) (text : List UInt8) : Option HttpSession :=
  if LF ∈ text ∨ lineLen (rawLine text) = 0 then none
  else (headerLineParse (rawLine text)).map fun header => headerAdd s (rawLine text) header dir

def Message.head (dir : Dir) (s : HttpSession) (m : Message) : Option HttpSession :=
  if LF ∈ m.blank ∨ lineLen (rawLine m.blank) ≠ 0 then none
  else (readStart dir s m.startLine).bind fun s => m.fields.foldlM (readField dir) s

def framed (h : HttpSession) (dir : Dir) : Payload → Bool
  | .empty => !hasBody h dir
  | .fixed content =>
    !(h.headers dir).chunked && content ≠ [] && content.length = (h.headers dir).contentLengthN
  | .chunked body => (h.headers dir).chunked && body.isValid

/-- The session behind the message with the head `h`. -/
def received (h : HttpSession) (dir : Dir) : Payload → HttpSession
  | .empty => bodyParseStateSet h dir
  | .fixed content => bodyParseStateSet (h.setBody ⟨content, none⟩ dir) dir
  | .chunked body =>
    bodyParseStateSet (setSink h dir
      (body.appendTo ⟨Chunked.init, [], (h.headers dir).contentLengthN⟩)) dir

def Message.read (dir : Dir) (s : HttpSession) (m : Message) : Option HttpSession :=
  (m.head dir s).bind fun h =>
    if framed h dir m.payload then some (received h dir m.payload) else none

/-- The filter lets the message through at the end of its headers. -/
def Message.accepted (app : App) (dir : Dir) (s : HttpSession) (m : Message) : Bool :=
  match m.head dir s with
  | none => false
  | some h => app.accept dir (headerEndStateSet h dir)

theorem eats_line {s s' : HttpSession} {text : List UInt8} (hs : inMessage dir s)
    (hphase : s.parsePhase ≠ bodyPhase dir) (htext : LF ∉ text)
    (h : lineHandle app dir s (rawLine text) = .ok s') :
    Eats app dir s [] (rawLine text) s' [] := by
  have hopen := messageDone_of_inMessage hs
  have heats : Eats app dir s [] text s ([] ++ text) := eats_text hopen hphase htext []
  have hlf : sessionByte app dir s text LF = _ := sessionByte_lf hphase text
  rw [← rawLine, h] at hlf
  exact heats.snoc hopen hlf

theorem lineHandle_of_readStart {s s' : HttpSession} {text : List UInt8}
    (hs : s.parsePhase = startPhase dir) (h : readStart dir s text = some s') :
    LF ∉ text ∧ s'.parsePhase = headerPhase dir ∧
      lineHandle app dir s (rawLine text) = .ok s' := by
  unfold readStart at h
  split at h
  · simp at h
  · rename_i htext
    cases dir with
    | request =>
      cases hparse : requestLineParse (rawLine text) with
      | none => simp [hparse] at h
      | some r =>
        simp only [hparse, Option.ite_none_left_eq_some, Option.some.injEq] at h
        obtain ⟨hversion, rfl⟩ := h
        refine ⟨htext, rfl, ?_⟩
        have hset : (requestLineSet s (rawLine text) r).httpVersion ≠ 9 := hversion
        simp [lineHandle, hs, requestLineHandle, hparse, hset]
    | response =>
      cases hparse : statusLineParse (rawLine text) with
      | none => simp [hparse] at h
      | some status =>
        simp only [hparse, Option.some.injEq] at h
        subst h
        exact ⟨htext, rfl, by simp [lineHandle, hs, statusLineHandle, hparse]⟩

theorem headerPhase_ne_startPhase (dir : Dir) : headerPhase dir ≠ startPhase dir := by
  cases dir <;> simp [headerPhase, startPhase]

theorem lineHandle_of_readField {s s' : HttpSession} {text : List UInt8}
    (hs : s.parsePhase = headerPhase dir) (h : readField dir s text = some s') :
    LF ∉ text ∧ s'.parsePhase = headerPhase dir ∧
      lineHandle app dir s (rawLine text) = .ok s' := by
  unfold readField at h
  split at h
  · simp at h
  · rename_i htext
    push Not at htext
    obtain ⟨header, hparse, rfl⟩ := Option.map_eq_some_iff.1 h
    refine ⟨htext.1, by rw [parsePhase_headerAdd, hs], ?_⟩
    simp [lineHandle, hs, headerPhase_ne_startPhase, headerLineHandle, htext.2, hparse]

theorem eats_fields {s h : HttpSession} {fields : List (List UInt8)}
    (hs : s.parsePhase = headerPhase dir) (hread : fields.foldlM (readField dir) s = some h) :
    h.parsePhase = headerPhase dir ∧ (∀ dir', h.body dir' = s.body dir') ∧
      Eats app dir s [] (fields.flatMap rawLine) h [] := by
  induction fields generalizing s with
  | nil =>
    obtain rfl : s = h := by simpa using hread
    exact ⟨hs, fun _ => rfl, .nil s []⟩
  | cons text fields ih =>
    rw [List.foldlM_cons] at hread
    obtain ⟨s₁, hfield, hrest⟩ := Option.bind_eq_some_iff.1 hread
    obtain ⟨htext, hphase, hline⟩ := lineHandle_of_readField hs hfield
    have hne : s.parsePhase ≠ bodyPhase dir := hs ▸ headerPhase_ne_bodyPhase dir
    have hbody := (lineHandle_ok (.inr (.inl hs)) hne hline).2.1
    obtain ⟨hphase', hbody', heats⟩ := ih hphase hrest
    refine ⟨hphase', fun dir' => (hbody' dir').trans (hbody dir'), ?_⟩
    exact (eats_line (.inr (.inl hs)) hne htext hline).trans heats

theorem eats_head {s h : HttpSession} {m : Message} (hs : s.parsePhase = startPhase dir)
    (hread : m.head dir s = some h) (haccept : app.accept dir (headerEndStateSet h dir) = true) :
    (∀ dir', h.body dir' = s.body dir') ∧
      Eats app dir s [] m.headWire (headerEndStateSet h dir) [] := by
  unfold Message.head at hread
  split at hread
  · simp at hread
  · rename_i hblank
    push Not at hblank
    obtain ⟨s₁, hstart, hfields⟩ := Option.bind_eq_some_iff.1 hread
    obtain ⟨htext, hphase, hline⟩ := lineHandle_of_readStart hs hstart
    have hne : s.parsePhase ≠ bodyPhase dir := hs ▸ startPhase_ne_bodyPhase dir
    have hbody := (lineHandle_ok (.inl hs) hne hline).2.1
    obtain ⟨hphase', hbody', heats⟩ := eats_fields hphase hfields
    have hend : lineHandle app dir h (rawLine m.blank) = .ok (headerEndStateSet h dir) := by
      simp [lineHandle, hphase', headerPhase_ne_startPhase, headerLineHandle, hblank.2, haccept]
    refine ⟨fun dir' => (hbody' dir').trans (hbody dir'), ?_⟩
    have hlast := eats_line (.inr (.inl hphase')) (hphase' ▸ headerPhase_ne_bodyPhase dir)
      hblank.1 hend
    exact (eats_line (.inl hs) hne htext hline).trans (heats.trans hlast)

theorem headerEndStateSet_body {h : HttpSession} (hbody : hasBody h dir = true) :
    headerEndStateSet h dir = { h with parsePhase := bodyPhase dir } := by
  simp [headerEndStateSet, hbody]

theorem eats_payload {h : HttpSession} {payload : Payload} (hbody : h.body dir = none)
    (hframed : framed h dir payload = true) :
    Eats app dir (headerEndStateSet h dir) [] payload.wire (received h dir payload) [] := by
  cases payload with
  | empty =>
    have hnone : hasBody h dir = false := by simpa [framed] using hframed
    have hend : headerEndStateSet h dir = received h dir .empty := by
      simp [headerEndStateSet, hnone, received, bodyParseStateSet]
    rw [hend]
    exact .nil _ []
  | fixed content =>
    simp only [framed, Bool.and_eq_true, Bool.not_eq_true', decide_eq_true_eq] at hframed
    obtain ⟨⟨hchunked, hne⟩, hlen⟩ := hframed
    have hpos := List.length_pos_of_ne_nil hne
    rw [headerEndStateSet_body (by simp [hasBody, ← hlen, hpos])]
    have hbody' : ({ h with parsePhase := bodyPhase dir } : HttpSession).body dir = none := by
      cases dir <;> exact hbody
    have hheaders : ({ h with parsePhase := bodyPhase dir } : HttpSession).headers dir =
        h.headers dir := by
      cases dir <;> rfl
    have heats : Eats app dir { h with parsePhase := bodyPhase dir } [] content _ [] :=
      eats_direct rfl (by rw [hheaders, hchunked]) hne (by simp [hbody', hheaders, hlen])
    have hend : bodyDirectAppend { h with parsePhase := bodyPhase dir } dir content =
        received h dir (.fixed content) := by
      simp only [bodyDirectAppend, hbody', HttpSession.headers_setBody, hheaders, ← hlen,
        Option.getD_none, List.nil_append, le_refl, if_true, received]
      cases dir <;> rfl
    rw [← hend]
    exact heats
  | chunked body =>
    simp only [framed, Bool.and_eq_true] at hframed
    obtain ⟨hchunked, hvalid⟩ := hframed
    rw [headerEndStateSet_body (by simp [hasBody, hchunked])]
    have hsink : getSink { h with parsePhase := bodyPhase dir } dir =
        ⟨Chunked.init, [], (h.headers dir).contentLengthN⟩ := by
      cases dir <;> simp_all [getSink, HttpSession.body, HttpSession.headers]
    have hne : body.wire ≠ [] := by simp [ChunkedBody.wire]
    have hfold := sinkFold_chunkedBody [] (h.headers dir).contentLengthN hvalid []
    rw [List.append_nil] at hfold
    have hmatch : StepMatches app dir { h with parsePhase := bodyPhase dir } body.wire _ :=
      stepMatches_chunked rfl (by cases dir <;> exact hchunked) hne
    rw [hsink, Chunked.init, hfold] at hmatch
    obtain ⟨u, hu, -, heats⟩ := hmatch
    rw [List.append_nil] at hu
    subst hu
    have hend : bodyParseStateSet (setSink { h with parsePhase := bodyPhase dir } dir
        (body.appendTo ⟨Chunked.init, [], (h.headers dir).contentLengthN⟩)) dir =
          received h dir (.chunked body) := by
      cases dir <;> rfl
    rw [← hend]
    exact heats

theorem Message.eats {s s' : HttpSession} {m : Message} (hs : s.parsePhase = startPhase dir)
    (hbody : s.body dir = none) (hread : m.read dir s = some s')
    (haccept : m.accepted app dir s = true) : Eats app dir s [] m.wire s' [] := by
  unfold Message.read at hread
  obtain ⟨h, hhead, hpayload⟩ := Option.bind_eq_some_iff.1 hread
  simp only [Option.ite_none_right_eq_some, Option.some.injEq] at hpayload
  obtain ⟨hframed, rfl⟩ := hpayload
  simp only [Message.accepted, hhead] at haccept
  obtain ⟨hsame, heats⟩ := eats_head hs hhead haccept
  exact heats.trans (eats_payload ((hsame dir).trans hbody) hframed)

end CloudHands.Http

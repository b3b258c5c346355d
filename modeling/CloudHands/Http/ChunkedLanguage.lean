import Mathlib.Computability.Language
import CloudHands.Http.Message

/-!
# What the chunked body parser accepts

The parser takes an encoding off the front of the stream however that is cut, and gives up on
every input that no encoding begins with. It takes a bare line feed for the end of a line, and it
does not look at what stands between the data of a chunk and the end of that line.
-/

namespace CloudHands.Http

open scoped Computability

/-- The parser on one piece after the other, until the body ends. -/
def chunkedPieces (sink : ChunkSink) : List (List UInt8) → Option SinkEnd
  | [] => some (.again sink)
  | piece :: pieces =>
    match chunkedBodyParse sink piece with
    | some (.again sink') => chunkedPieces sink' pieces
    | some (.done sink' rest) => some (.done sink' (rest ++ pieces.flatten))
    | some (.invalid content n) => some (.invalid content n)
    | none => none

theorem sinkFold_append (sink : ChunkSink) (input more : List UInt8) :
    sinkFold sink (input ++ more) =
      match sinkFold sink input with
      | .again sink' => sinkFold sink' more
      | .done sink' rest => .done sink' (rest ++ more)
      | .invalid content n => .invalid content n := by
  induction input generalizing sink with
  | nil => rfl
  | cons ch input ih =>
    simp only [List.cons_append, sinkFold]
    cases sinkByte sink ch with
    | none => rfl
    | some r =>
      obtain ⟨sink', ended⟩ := r
      cases ended with
      | true => rfl
      | false => exact ih sink'

theorem sinkFold_ok {sink sink' : ChunkSink} {input : List UInt8} (hctx : sink.ctx.Ok)
    (h : sinkFold sink input = .again sink') : sink'.ctx.Ok := by
  induction input generalizing sink with
  | nil =>
    cases h
    exact hctx
  | cons ch input ih =>
    rw [sinkFold] at h
    split at h
    case h_1 sink₁ hbyte => exact ih (sinkByte_ok hctx hbyte) h
    case h_2 => cases h
    case h_3 => cases h

theorem chunkedPieces_eq {sink : ChunkSink} (hctx : sink.ctx.Ok) (pieces : List (List UInt8)) :
    chunkedPieces sink pieces = some (sinkFold sink pieces.flatten) := by
  induction pieces generalizing sink with
  | nil => rfl
  | cons piece pieces ih =>
    rw [chunkedPieces, chunkedBodyParse_eq hctx, List.flatten_cons, sinkFold_append]
    cases hpiece : sinkFold sink piece with
    | again sink' => exact ih (sinkFold_ok hctx hpiece)
    | done sink' rest => rfl
    | invalid content n => rfl

/-- The chunk sizes are the ones that fit into an `off_t`. -/
structure Chunk.Encodes (chunk : Chunk) : Prop where
  digits : chunk.digits ≠ []
  size : hexNumber 0 chunk.digits = some chunk.data.length
  data : chunk.data ≠ []
  fits : chunk.data.length < 2 ^ 63
  ext : isExtension chunk.ext = true

structure ChunkedBody.Encodes (body : ChunkedBody) : Prop where
  chunks : ∀ chunk ∈ body.chunks, chunk.Encodes
  digits : body.lastDigits ≠ []
  size : hexNumber 0 body.lastDigits = some 0
  ext : isExtension body.lastExt = true
  trailers : ∀ trailer ∈ body.trailers, trailer ≠ [] ∧ isText trailer = true

def ChunkedBody.data (body : ChunkedBody) : List UInt8 := body.chunks.flatMap Chunk.data

theorem ChunkedBody.Encodes.isValid {body : ChunkedBody} (h : body.Encodes)
    (hsmall : ∀ chunk ∈ body.chunks, chunk.data.length < 2 ^ 59) : body.isValid = true := by
  simp only [ChunkedBody.isValid, Bool.and_eq_true, List.all_eq_true, decide_eq_true_eq]
  refine ⟨⟨⟨⟨fun chunk hchunk => ?_, h.digits⟩, h.size⟩, h.ext⟩, h.trailers⟩
  have hok := h.chunks chunk hchunk
  have hbound := hsmall chunk hchunk
  simp only [Chunk.isValid, Bool.and_eq_true, decide_eq_true_eq]
  refine ⟨⟨⟨⟨hok.digits, hok.size⟩, hok.data⟩, ?_⟩, hok.ext⟩
  unfold maxOffT
  omega

theorem ChunkedBody.appendTo_eq (body : ChunkedBody) (sink : ChunkSink) :
    (body.appendTo sink).content = sink.content ++ body.data ∧
      (body.appendTo sink).ctx = sink.ctx := by
  unfold ChunkedBody.appendTo ChunkedBody.data
  induction body.chunks generalizing sink with
  | nil => simp
  | cons chunk chunks ih =>
    obtain ⟨hcontent, hctx⟩ := ih (sink.append chunk.data)
    rw [List.foldl_cons, hcontent, hctx]
    simp [ChunkSink.append]

def lineEnds : Language UInt8 := {[CR, LF], [LF]}

def texts : Language UInt8 := {w | isText w = true}

def nonemptyTexts : Language UInt8 := {w | w ≠ [] ∧ isText w = true}

def extensions : Language UInt8 := {w | isExtension w = true}

def numerals (n : ℕ) : Language UInt8 := {w | w ≠ [] ∧ hexNumber 0 w = some n}

def sizeLines (n : ℕ) : Language UInt8 := numerals n * (extensions * lineEnds)

def dataBytes (n : ℕ) : Language UInt8 := {w | w.length = n}

def looseChunks : Language UInt8 :=
  {w | ∃ n, 0 < n ∧ n < 2 ^ 63 ∧ w ∈ sizeLines n * (dataBytes n * (texts * lineEnds))}

def looseTrailers : Language UInt8 := (nonemptyTexts * lineEnds)∗ * lineEnds

def looseEncodings : Language UInt8 := looseChunks∗ * (sizeLines 0 * looseTrailers)

theorem cons_kstar_mul {l m : Language UInt8} {w v : List UInt8} (hw : w ∈ l) (hv : v ∈ l∗ * m) :
    w ++ v ∈ l∗ * m := by
  obtain ⟨x, hx, y, hy, rfl⟩ := Language.mem_mul.1 hv
  obtain ⟨words, rfl, hwords⟩ := Language.mem_kstar.1 hx
  rw [← List.append_assoc]
  refine Language.append_mem_mul (Language.mem_kstar.2 ⟨w :: words, rfl, ?_⟩) hy
  exact List.forall_mem_cons.2 ⟨hw, hwords⟩

theorem nil_kstar_mul {l m : Language UInt8} {v : List UInt8} (hv : v ∈ m) : v ∈ l∗ * m :=
  Language.append_mem_mul (Language.nil_mem_kstar l) hv

def lineThen (k : Language UInt8) : Language UInt8 := texts * (lineEnds * k)

def feedThen (k : Language UInt8) : Language UInt8 := {[LF]} * k

/-- `n` more bytes of data and what follows them. -/
def dataThen (n : ℕ) : Language UInt8 := dataBytes n * lineThen looseEncodings

def sizeThen (n : ℕ) : Language UInt8 := if n = 0 then looseTrailers else dataThen n

/-- The digits that make `n` of the value `v` of those before them. -/
def digitsTo (v n : ℕ) : Language UInt8 := {w | hexNumber v w = some n}

def digitsThen (v : ℕ) : Language UInt8 :=
  {w | ∃ n < 2 ^ 63, w ∈ digitsTo v n * (extensions * (lineEnds * sizeThen n))}

def Chunked.remaining (ctx : Chunked) : Language UInt8 :=
  match ctx.state with
  | .chunkStart => looseEncodings
  | .chunkSize => digitsThen ctx.size
  | .chunkExtension => lineThen (dataThen ctx.size)
  | .chunkExtensionAlmostDone => feedThen (dataThen ctx.size)
  | .chunkData => dataThen ctx.size
  | .afterData => lineThen looseEncodings
  | .afterDataAlmostDone => feedThen looseEncodings
  | .lastChunkExtension | .trailerHeader => lineThen looseTrailers
  | .lastChunkExtensionAlmostDone | .trailerHeaderAlmostDone => feedThen looseTrailers
  | .trailer => looseTrailers
  | .trailerAlmostDone => {[LF]}

theorem cons_mem_texts {ch : UInt8} {text : List UInt8} (hCR : ch ≠ CR) (hLF : ch ≠ LF)
    (htext : text ∈ texts) : ch :: text ∈ texts := by
  have htext' : isText text = true := htext
  change isText (ch :: text) = true
  simp only [isText, Bool.and_eq_true, decide_eq_true_eq] at htext' ⊢
  exact ⟨List.not_mem_cons_of_ne_of_not_mem hCR.symm htext'.1,
    List.not_mem_cons_of_ne_of_not_mem hLF.symm htext'.2⟩

theorem lineThen_cons {k : Language UInt8} {ch : UInt8} {w : List UInt8} (hCR : ch ≠ CR)
    (hLF : ch ≠ LF) (hw : w ∈ lineThen k) : ch :: w ∈ lineThen k := by
  obtain ⟨text, htext, v, hv, rfl⟩ := Language.mem_mul.1 hw
  exact Language.append_mem_mul (cons_mem_texts hCR hLF htext) hv

theorem nil_mem_texts : [] ∈ texts := rfl

theorem lineThen_cr {k : Language UInt8} {w : List UInt8} (hw : w ∈ feedThen k) :
    CR :: w ∈ lineThen k := by
  obtain ⟨feed, rfl, v, hv, rfl⟩ := Language.mem_mul.1 hw
  have hends : [CR, LF] ∈ lineEnds := .inl rfl
  exact Language.append_mem_mul nil_mem_texts (Language.append_mem_mul hends hv)

theorem lineThen_lf {k : Language UInt8} {w : List UInt8} (hw : w ∈ k) : LF :: w ∈ lineThen k := by
  have hends : [LF] ∈ lineEnds := .inr rfl
  exact Language.append_mem_mul nil_mem_texts (Language.append_mem_mul hends hw)

theorem feedThen_lf {k : Language UInt8} {w : List UInt8} (hw : w ∈ k) : LF :: w ∈ feedThen k :=
  Language.append_mem_mul (show [LF] ∈ ({[LF]} : Language UInt8) from rfl) hw

def Admits (ctx : Chunked) (ch : UInt8) : Prop :=
  ∀ ctx', chunkedStep ctx ch = .next ctx' → ∀ w ∈ ctx'.remaining, ch :: w ∈ ctx.remaining

theorem admits_skipLine {ctx : Chunked} {ch : UInt8} {cr lf : ChunkState} {k : Language UInt8}
    (hstep : chunkedStep ctx ch = skipLine ctx ch cr lf) (hhere : ctx.remaining = lineThen k)
    (hcr : Chunked.remaining { ctx with state := cr } = feedThen k)
    (hlf : Chunked.remaining { ctx with state := lf } = k) : Admits ctx ch := by
  intro ctx' h w hw
  rw [hstep, skipLine] at h
  rw [hhere]
  split at h
  · rename_i hCR
    cases h
    rw [hCR]
    exact lineThen_cr (hcr ▸ hw)
  · rename_i hCR
    split at h
    · rename_i hLF
      cases h
      rw [hLF]
      exact lineThen_lf (hlf ▸ hw)
    · rename_i hLF
      cases h
      exact lineThen_cons hCR hLF (hhere ▸ hw)

theorem admits_expectLF {ctx : Chunked} {ch : UInt8} {lf : ChunkState} {k : Language UInt8}
    (hstep : chunkedStep ctx ch = expectLF ctx ch lf) (hhere : ctx.remaining = feedThen k)
    (hlf : Chunked.remaining { ctx with state := lf } = k) : Admits ctx ch := by
  intro ctx' h w hw
  rw [hstep, expectLF] at h
  rw [hhere]
  split at h
  · rename_i hLF
    cases h
    rw [hLF]
    exact feedThen_lf (hlf ▸ hw)
  · cases h

/-- The end of the digits, before the rest `k` of the body. -/
theorem sizeEnd_mem {ctx ctx' : Chunked} {ch : UInt8} {cr lf ext : ChunkState} {k : Language UInt8}
    (h : sizeEnd ctx ch cr lf ext = .next ctx')
    (hcr : Chunked.remaining { ctx with state := cr } = feedThen k)
    (hlf : Chunked.remaining { ctx with state := lf } = k)
    (hext : Chunked.remaining { ctx with state := ext } = lineThen k) {w : List UInt8}
    (hw : w ∈ ctx'.remaining) : ch :: w ∈ extensions * (lineEnds * k) := by
  have hnil : [] ∈ extensions := rfl
  rw [sizeEnd] at h
  split at h
  · rename_i hCR
    cases h
    rw [hCR]
    rw [hcr] at hw
    obtain ⟨feed, rfl, v, hv, rfl⟩ := Language.mem_mul.1 hw
    have hends : [CR, LF] ∈ lineEnds := .inl rfl
    exact Language.append_mem_mul hnil (Language.append_mem_mul hends hv)
  · rename_i hCR
    split at h
    · rename_i hLF
      cases h
      rw [hLF]
      have hends : [LF] ∈ lineEnds := .inr rfl
      exact Language.append_mem_mul hnil (Language.append_mem_mul hends (hlf ▸ hw))
    · rename_i hLF
      split at h
      · rename_i hblank
        cases h
        rw [hext] at hw
        obtain ⟨text, htext, v, hv, rfl⟩ := Language.mem_mul.1 hw
        have htext' : isText (ch :: text) = true := cons_mem_texts hCR hLF htext
        have hword : ch :: text ∈ extensions := by
          change isExtension (ch :: text) = true
          simp only [isExtension, htext', Bool.true_and, Bool.or_eq_true, decide_eq_true_eq]
          exact or_assoc.2 hblank
        exact Language.append_mem_mul hword hv
      · cases h

theorem encoding_of_digits {ch : UInt8} {d : ℕ} (hd : hexValue ch = some d) {w : List UInt8}
    (hw : w ∈ digitsThen d) : ch :: w ∈ looseEncodings := by
  obtain ⟨n, hbound, hw⟩ := hw
  obtain ⟨digits, hn, w₁, hw₁, rfl⟩ := Language.mem_mul.1 hw
  obtain ⟨ext, hext, w₂, hw₂, rfl⟩ := Language.mem_mul.1 hw₁
  obtain ⟨ends, hends, v, hv, rfl⟩ := Language.mem_mul.1 hw₂
  have hnumeral : ch :: digits ∈ numerals n := by
    have hn' : hexNumber d digits = some n := hn
    refine ⟨List.cons_ne_nil _ _, ?_⟩
    rw [hexNumber, hd]
    simpa using hn'
  have hline : ch :: digits ++ (ext ++ ends) ∈ sizeLines n :=
    Language.append_mem_mul hnumeral (Language.append_mem_mul hext hends)
  have hsplit : ch :: (digits ++ (ext ++ (ends ++ v))) = ch :: digits ++ (ext ++ ends) ++ v := by
    simp
  rw [hsplit]
  by_cases hzero : n = 0
  · rw [sizeThen, if_pos hzero] at hv
    rw [hzero] at hline
    exact nil_kstar_mul (Language.append_mem_mul hline hv)
  · rw [sizeThen, if_neg hzero] at hv
    obtain ⟨data, hdata, v₁, hv₁, rfl⟩ := Language.mem_mul.1 hv
    obtain ⟨text, htext, v₂, hv₂, rfl⟩ := Language.mem_mul.1 hv₁
    obtain ⟨ends', hends', v₃, hv₃, rfl⟩ := Language.mem_mul.1 hv₂
    have hchunk : ch :: digits ++ (ext ++ ends) ++ (data ++ (text ++ ends')) ∈ looseChunks :=
      ⟨n, Nat.pos_of_ne_zero hzero, hbound, Language.append_mem_mul hline
        (Language.append_mem_mul hdata (Language.append_mem_mul htext hends'))⟩
    have hall : _ ∈ looseEncodings := cons_kstar_mul hchunk hv₃
    simpa only [List.append_assoc] using hall

theorem admits {ctx : Chunked} (hctx : ctx.Ok) (ch : UInt8) : Admits ctx ch := by
  obtain ⟨size, state⟩ := ctx
  cases state with
  | chunkStart =>
    intro ctx' h w hw
    simp only [chunkedStep] at h
    cases hd : hexValue ch with
    | none =>
      rw [hd] at h
      cases h
    | some d =>
      rw [hd] at h
      cases h
      exact encoding_of_digits hd hw
  | chunkSize =>
    intro ctx' h w hw
    simp only [chunkedStep] at h
    split at h
    · cases h
    cases hd : hexValue ch with
    | some d =>
      rw [hd] at h
      cases h
      obtain ⟨n, hbound, hw⟩ := hw
      obtain ⟨digits, hn, v, hv, rfl⟩ := Language.mem_mul.1 hw
      refine ⟨n, hbound, Language.append_mem_mul (a := ch :: digits) ?_ hv⟩
      change hexNumber size (ch :: digits) = some n
      rw [hexNumber, hd]
      exact hn
    | none =>
      rw [hd] at h
      have hbound : size < 2 ^ 63 := by
        have hfits := hctx.size_fits
        unfold maxOffT at hfits
        dsimp only at hfits
        omega
      have hnone : [] ∈ digitsTo size size := rfl
      refine ⟨size, hbound, Language.append_mem_mul hnone ?_⟩
      by_cases hzero : size = 0
      · simp only [if_pos hzero] at h
        rw [sizeThen, if_pos hzero]
        exact sizeEnd_mem h rfl rfl rfl hw
      · simp only [if_neg hzero] at h
        rw [sizeThen, if_neg hzero]
        exact sizeEnd_mem h rfl rfl rfl hw
  | chunkExtension => exact admits_skipLine rfl rfl rfl rfl
  | chunkExtensionAlmostDone => exact admits_expectLF rfl rfl rfl
  | chunkData =>
    intro ctx' h
    cases h
  | afterData => exact admits_skipLine rfl rfl rfl rfl
  | afterDataAlmostDone => exact admits_expectLF rfl rfl rfl
  | lastChunkExtension => exact admits_skipLine rfl rfl rfl rfl
  | lastChunkExtensionAlmostDone => exact admits_expectLF rfl rfl rfl
  | trailer =>
    intro ctx' h w hw
    simp only [chunkedStep] at h
    split at h
    · rename_i hCR
      cases h
      obtain rfl : w = [LF] := hw
      exact nil_kstar_mul (.inl (by rw [hCR]))
    · rename_i hCR
      split at h
      · cases h
      · rename_i hLF
        cases h
        obtain ⟨text, htext, w₁, hw₁, rfl⟩ := Language.mem_mul.1 hw
        obtain ⟨ends, hends, v, hv, rfl⟩ := Language.mem_mul.1 hw₁
        have hword : ch :: text ∈ nonemptyTexts :=
          ⟨List.cons_ne_nil _ _, cons_mem_texts hCR hLF htext⟩
        have hall : _ ∈ looseTrailers := cons_kstar_mul (Language.append_mem_mul hword hends) hv
        rw [List.append_assoc] at hall
        exact hall
  | trailerAlmostDone =>
    intro ctx' h
    simp only [chunkedStep] at h
    split at h <;> cases h
  | trailerHeader => exact admits_skipLine rfl rfl rfl rfl
  | trailerHeaderAlmostDone => exact admits_expectLF rfl rfl rfl

theorem admits_data {ctx : Chunked} (hctx : ctx.Ok) (hdata : ctx.state = .chunkData) (ch : UInt8)
    {w : List UInt8} (hw : w ∈ (ctx.consume 1).enter.remaining) : ch :: w ∈ ctx.remaining := by
  obtain ⟨size, state⟩ := ctx
  obtain rfl : state = .chunkData := hdata
  have hpos : 0 < size := hctx.size_pos (.inr (.inr rfl))
  change ch :: w ∈ dataThen size
  by_cases hlast : size - 1 = 0
  · have henter : (Chunked.consume ⟨size, .chunkData⟩ 1).enter = ⟨size - 1, .afterData⟩ := by
      simp [Chunked.enter, Chunked.consume, hlast]
    rw [henter] at hw
    have hone : [ch] ∈ dataBytes size := by
      change 1 = size
      omega
    exact Language.append_mem_mul hone hw
  · have henter : (Chunked.consume ⟨size, .chunkData⟩ 1).enter = ⟨size - 1, .chunkData⟩ := by
      simp [Chunked.enter, Chunked.consume, hlast]
    rw [henter] at hw
    obtain ⟨data, hlen, v, hv, rfl⟩ := Language.mem_mul.1 hw
    have hlen' : data.length = size - 1 := hlen
    have hmore : ch :: data ∈ dataBytes size := by
      change data.length + 1 = size
      omega
    exact Language.append_mem_mul hmore hv

theorem last_mem {ctx : Chunked} {ch : UInt8} (h : chunkedStep ctx ch = .done) :
    [ch] ∈ ctx.remaining := by
  obtain ⟨size, state⟩ := ctx
  rcases chunkedStep_done h with hstate | hstate
  · obtain rfl : state = .trailer := hstate
    obtain rfl : ch = LF := by
      by_contra hLF
      simp only [chunkedStep, if_neg hLF] at h
      split at h <;> cases h
    exact nil_kstar_mul (.inr rfl)
  · obtain rfl : state = .trailerAlmostDone := hstate
    obtain rfl : ch = LF := by
      by_contra hLF
      simp only [chunkedStep, if_neg hLF] at h
      cases h
    rfl

theorem remaining_nonempty {ctx : Chunked} (hctx : ctx.Ok) : ∃ w, w ∈ ctx.remaining := by
  have htrailers : [LF] ∈ looseTrailers := nil_kstar_mul (.inr rfl)
  have hencoding : [48, LF, LF] ∈ looseEncodings := by
    have hline : [48, LF] ∈ sizeLines 0 :=
      Language.append_mem_mul (a := [48]) ⟨List.cons_ne_nil _ _, by decide⟩
        (Language.append_mem_mul (show [] ∈ extensions from rfl) (.inr rfl))
    exact nil_kstar_mul (Language.append_mem_mul hline htrailers)
  have hdata : ∀ n, ∃ w, w ∈ dataThen n := fun n =>
    ⟨_, Language.append_mem_mul (show List.replicate n 0 ∈ dataBytes n from List.length_replicate)
      (lineThen_lf hencoding)⟩
  obtain ⟨size, state⟩ := ctx
  obtain ⟨v, hv⟩ := hdata size
  cases state with
  | chunkStart => exact ⟨_, hencoding⟩
  | chunkSize =>
    have hbound : size < 2 ^ 63 := by
      have hfits := hctx.size_fits
      unfold maxOffT at hfits
      dsimp only at hfits
      omega
    have hrest : ∃ w, w ∈ sizeThen size := by
      unfold sizeThen
      split
      · exact ⟨_, htrailers⟩
      · exact ⟨v, hv⟩
    obtain ⟨w, hw⟩ := hrest
    have hnone : [] ∈ digitsTo size size := rfl
    exact ⟨_, size, hbound, Language.append_mem_mul hnone
      (Language.append_mem_mul (show [] ∈ extensions from rfl)
        (Language.append_mem_mul (show [LF] ∈ lineEnds from .inr rfl) hw))⟩
  | chunkExtension => exact ⟨_, lineThen_lf hv⟩
  | chunkExtensionAlmostDone => exact ⟨_, feedThen_lf hv⟩
  | chunkData => exact ⟨_, hv⟩
  | afterData => exact ⟨_, lineThen_lf hencoding⟩
  | afterDataAlmostDone => exact ⟨_, feedThen_lf hencoding⟩
  | lastChunkExtension => exact ⟨_, lineThen_lf htrailers⟩
  | lastChunkExtensionAlmostDone => exact ⟨_, feedThen_lf htrailers⟩
  | trailer => exact ⟨_, htrailers⟩
  | trailerAlmostDone => exact ⟨[LF], rfl⟩
  | trailerHeader => exact ⟨_, lineThen_lf htrailers⟩
  | trailerHeaderAlmostDone => exact ⟨_, feedThen_lf htrailers⟩

theorem sinkByte_remaining {sink sink' : ChunkSink} {ch : UInt8} {last : Bool}
    (hctx : sink.ctx.Ok) (h : sinkByte sink ch = some (sink', last)) :
    if last then [ch] ∈ sink.ctx.remaining
    else ∀ w ∈ sink'.ctx.remaining, ch :: w ∈ sink.ctx.remaining := by
  unfold sinkByte at h
  cases hstep : chunkedStep sink.ctx ch with
  | next ctx =>
    simp only [hstep, Option.ite_none_left_eq_some, Option.some.injEq, Prod.mk.injEq] at h
    obtain ⟨-, rfl, rfl⟩ := h
    exact admits hctx ch ctx hstep
  | data =>
    simp only [hstep, Option.some.injEq, Prod.mk.injEq] at h
    obtain ⟨rfl, rfl⟩ := h
    exact fun w hw => admits_data hctx (chunkedStep_data hstep) ch hw
  | done =>
    simp only [hstep, Option.some.injEq, Prod.mk.injEq] at h
    obtain ⟨-, rfl⟩ := h
    exact last_mem hstep
  | invalid => simp [hstep] at h

theorem sinkFold_remaining {sink : ChunkSink} (hctx : sink.ctx.Ok) (input : List UInt8) :
    match sinkFold sink input with
    | .done _ rest => ∃ w ∈ sink.ctx.remaining, input = w ++ rest
    | .again sink' => ∀ w ∈ sink'.ctx.remaining, input ++ w ∈ sink.ctx.remaining
    | .invalid _ _ => True := by
  induction input generalizing sink with
  | nil => exact fun w hw => hw
  | cons ch input ih =>
    rw [sinkFold]
    cases hbyte : sinkByte sink ch with
    | none => trivial
    | some r =>
      obtain ⟨sink', last⟩ := r
      have hstep := sinkByte_remaining hctx hbyte
      cases last with
      | true => exact ⟨[ch], hstep, rfl⟩
      | false =>
        have hrest := ih (sinkByte_ok hctx hbyte)
        dsimp only
        revert hrest
        cases sinkFold sink' input with
        | again sink'' => exact fun hrest w hw => hstep _ (hrest w hw)
        | done sink'' rest =>
          rintro ⟨w, hw, rfl⟩
          exact ⟨ch :: w, hstep w hw, rfl⟩
        | invalid content n => exact fun _ => trivial

/-- The parser takes an encoding off the front of the stream however it is cut and gives up on
every input that no encoding begins with. -/
theorem chunkedPieces_decode (pieces : List (List UInt8)) (content : List UInt8) (len : ℕ) :
    (∀ (body : ChunkedBody) (further : List UInt8), body.Encodes →
      (∀ chunk ∈ body.chunks, chunk.data.length < 2 ^ 59) → pieces.flatten = body.wire ++ further →
        ∃ sink, chunkedPieces ⟨Chunked.init, content, len⟩ pieces = some (.done sink further) ∧
          sink.content = content ++ body.data ∧ sink.ctx = Chunked.init) ∧
      ((∀ w ∈ looseEncodings, ∀ further, ¬ pieces.flatten <+: w ++ further) →
        ∃ content' len', chunkedPieces ⟨Chunked.init, content, len⟩ pieces =
          some (.invalid content' len')) := by
  have hinit : Chunked.Ok (⟨Chunked.init, content, len⟩ : ChunkSink).ctx := .init
  rw [chunkedPieces_eq hinit]
  constructor
  · intro body further hbody hsmall hcut
    obtain ⟨hcontent, hctx⟩ := body.appendTo_eq ⟨Chunked.init, content, len⟩
    refine ⟨_, ?_, hcontent, hctx⟩
    rw [hcut]
    exact congrArg some (sinkFold_chunkedBody content len (hbody.isValid hsmall) further)
  · intro hnone
    have hremaining := sinkFold_remaining hinit pieces.flatten
    cases hend : sinkFold ⟨Chunked.init, content, len⟩ pieces.flatten with
    | again sink =>
      rw [hend] at hremaining
      obtain ⟨w, hw⟩ := remaining_nonempty (sinkFold_ok hinit hend)
      refine absurd ?_ (hnone _ (hremaining w hw) [])
      rw [List.append_nil]
      exact List.prefix_append _ _
    | done sink rest =>
      rw [hend] at hremaining
      obtain ⟨w, hw, hcut⟩ := hremaining
      exact absurd (hcut ▸ List.prefix_refl _) (hnone w hw rest)
    | invalid content' len' => exact ⟨content', len', rfl⟩

section Inputs

def letters : ChunkedBody := ⟨[⟨[50], [59, 120], [97, 98]⟩], [48], [], []⟩

theorem letters_encodes : letters.Encodes where
  chunks := by
    intro chunk hchunk
    obtain rfl := List.mem_singleton.1 hchunk
    exact ⟨by decide, by decide, by decide, by decide, by decide⟩
  digits := by decide
  size := by decide
  ext := by decide
  trailers := by decide

theorem sizeLines_head {n : ℕ} {k : Language UInt8} {w : List UInt8} (hw : w ∈ sizeLines n * k) :
    ∃ ch v, w = ch :: v ∧ (hexValue ch).isSome := by
  obtain ⟨line, hline, v, -, rfl⟩ := Language.mem_mul.1 hw
  obtain ⟨digits, ⟨hne, hvalue⟩, v', -, rfl⟩ := Language.mem_mul.1 hline
  cases digits with
  | nil => exact absurd rfl hne
  | cons ch digits =>
    refine ⟨ch, _, rfl, ?_⟩
    rw [hexNumber] at hvalue
    cases hd : hexValue ch with
    | none =>
      rw [hd] at hvalue
      cases hvalue
    | some d => rfl

theorem looseEncodings_head {w : List UInt8} (hw : w ∈ looseEncodings) :
    ∃ ch v, w = ch :: v ∧ (hexValue ch).isSome := by
  obtain ⟨x, hx, y, hy, rfl⟩ := Language.mem_mul.1 hw
  obtain ⟨words, rfl, hwords⟩ := Language.mem_kstar.1 hx
  cases words with
  | nil => exact sizeLines_head hy
  | cons word words =>
    obtain ⟨n, -, -, hword⟩ := hwords word List.mem_cons_self
    obtain ⟨ch, v, rfl, hch⟩ := sizeLines_head hword
    exact ⟨ch, _, rfl, hch⟩

theorem letters_decoded :
    (∃ sink, chunkedPieces ⟨Chunked.init, [], 0⟩
      [[50, 59, 120, 13, 10, 97], [98, 13, 10, 48, 13, 10, 13, 10, 71]] = some (.done sink [71]) ∧
        sink.content = [97, 98] ∧ sink.ctx = Chunked.init) ∧
      ∃ content len, chunkedPieces ⟨Chunked.init, [], 0⟩ [[103]] = some (.invalid content len) := by
  constructor
  · have hsmall : ∀ chunk ∈ letters.chunks, chunk.data.length < 2 ^ 59 := by decide
    exact (chunkedPieces_decode _ [] 0).1 letters [71] letters_encodes hsmall (by decide)
  · refine (chunkedPieces_decode [[103]] [] 0).2 ?_
    rintro w hw further ⟨more, hmore⟩
    obtain ⟨ch, v, rfl, hch⟩ := looseEncodings_head hw
    obtain rfl : 103 = ch := (List.cons.inj hmore).1
    exact absurd hch (by decide)

def largeDigits : List UInt8 := [56, 48, 48, 48, 48, 48, 48, 48, 48, 48, 48, 48, 48, 48, 48]

def largeBody (data : List UInt8) : ChunkedBody := ⟨[⟨largeDigits, [], data⟩], [48], [], []⟩

theorem largeBody_encodes {data : List UInt8} (h : data.length = 2 ^ 59) :
    (largeBody data).Encodes where
  chunks := by
    intro chunk hchunk
    obtain rfl := List.mem_singleton.1 hchunk
    have hvalue : hexNumber 0 largeDigits = some (2 ^ 59) := by decide
    refine ⟨List.cons_ne_nil _ _, hvalue.trans (congrArg some h.symm), ?_, ?_, rfl⟩
    · exact List.ne_nil_of_length_pos (h ▸ by decide)
    · exact h ▸ by decide
  digits := List.cons_ne_nil _ _
  size := rfl
  ext := rfl
  trailers := by simp [largeBody]

theorem largeBody_refused (data : List UInt8) :
    ∃ content len, chunkedPieces ⟨Chunked.init, [], 0⟩ [(largeBody data).wire] =
      some (.invalid content len) := by
  have hlarge : ∀ more, sinkFold ⟨Chunked.init, [], 0⟩ (largeDigits ++ CR :: more) =
      .invalid [] 0 := fun more => rfl
  have hwire : [(largeBody data).wire].flatten = largeDigits ++ CR :: LF ::
      (data ++ [13, 10, 48, 13, 10, 13, 10]) := by
    simp [largeBody, ChunkedBody.wire, Chunk.wire, CR, LF]
  rw [@chunkedPieces_eq ⟨Chunked.init, [], 0⟩ .init, hwire, hlarge]
  exact ⟨_, _, rfl⟩

theorem ChunkedBody.Encodes.firstLine {body : ChunkedBody} (h : body.Encodes) :
    ∃ digits ext n more, body.wire = digits ++ (ext ++ CR :: LF :: more) ∧
      digits ≠ [] ∧ hexNumber 0 digits = some n ∧ isExtension ext = true ∧
        (0 < n → ∃ data more', data.length = n ∧ more = data ++ CR :: LF :: more') := by
  obtain ⟨chunks, lastDigits, lastExt, trailers⟩ := body
  cases chunks with
  | nil =>
    refine ⟨lastDigits, lastExt, 0, trailers.flatMap (· ++ [CR, LF]) ++ [CR, LF], ?_, h.digits,
      h.size, h.ext, fun hpos => absurd hpos (lt_irrefl 0)⟩
    simp [ChunkedBody.wire]
  | cons chunk chunks =>
    have hchunk := h.chunks chunk List.mem_cons_self
    refine ⟨chunk.digits, chunk.ext, chunk.data.length,
      chunk.data ++ CR :: LF :: ChunkedBody.wire ⟨chunks, lastDigits, lastExt, trailers⟩, ?_,
      hchunk.digits, hchunk.size, hchunk.ext, fun _ => ⟨chunk.data, _, rfl, rfl⟩⟩
    simp [ChunkedBody.wire, Chunk.wire]

theorem firstLine_end {digits ext more rest : List UInt8} {n : ℕ} {d c : UInt8}
    (hne : digits ≠ []) (hvalue : hexNumber 0 digits = some n) (hext : isExtension ext = true)
    (hdigit : hexValue c = none) (hblank : ¬ (chr c = ';' ∨ chr c = ' ' ∨ chr c = '\t'))
    (h : d :: c :: rest = digits ++ (ext ++ CR :: more)) :
    c = CR ∧ hexNumber 0 [d] = some n ∧ rest = more := by
  obtain ⟨d', digits, rfl⟩ := List.exists_cons_of_ne_nil hne
  obtain ⟨rfl, h₁⟩ := List.cons.inj h
  cases digits with
  | cons c' digits =>
    obtain ⟨rfl, -⟩ := List.cons.inj h₁
    simp only [hexNumber] at hvalue
    cases hd : hexValue d with
    | none =>
      rw [hd] at hvalue
      cases hvalue
    | some v =>
      simp only [hd, hdigit] at hvalue
      cases hvalue
  | nil =>
    cases ext with
    | cons c' ext =>
      obtain ⟨rfl, -⟩ := List.cons.inj h₁
      simp only [isExtension, Bool.and_eq_true, Bool.or_eq_true, decide_eq_true_eq] at hext
      exact absurd (or_assoc.1 hext.2) hblank
    | nil =>
      obtain ⟨rfl, rfl⟩ := List.cons.inj h₁
      exact ⟨rfl, hvalue, rfl⟩

def bareFeeds : List UInt8 := [48, 10, 10]

/-- A chunk with another byte between its data and the end of the line. -/
def gappedChunk : List UInt8 := [49, 13, 10, 97, 88, 13, 10, 48, 13, 10, 13, 10]

theorem not_prefix_of_encoding {input : List UInt8} (hinput : input ∈ [bareFeeds, gappedChunk])
    {body : ChunkedBody} (h : body.Encodes) (further : List UInt8) :
    ¬ input <+: body.wire ++ further := by
  rintro ⟨rest, hrest⟩
  obtain ⟨digits, ext, n, more, hwire, hne, hvalue, hext, hdata⟩ := h.firstLine
  rw [hwire, List.append_assoc, List.append_assoc, List.cons_append] at hrest
  rcases List.mem_pair.1 hinput with rfl | rfl
  · obtain ⟨hCR, -, -⟩ := firstLine_end hne hvalue hext (by decide) (by decide) hrest
    exact absurd hCR (by decide)
  · obtain ⟨-, hone, hline⟩ := firstLine_end hne hvalue hext (by decide) (by decide) hrest
    obtain rfl : 1 = n := Option.some.inj hone
    obtain ⟨data, more', hlen, rfl⟩ := hdata one_pos
    obtain ⟨a, rfl⟩ := List.length_eq_one_iff.1 hlen
    have hgap := (List.cons.inj (List.cons.inj (List.cons.inj hline).2).2).1
    exact absurd hgap (by decide)

/-- A chunk of 2 ^ 59 bytes is refused, and the parser completes on inputs with bare line feeds and
with bytes behind the data of a chunk. -/
theorem encodings_not_decoded :
    (∃ body : ChunkedBody, body.Encodes ∧ ∃ content len,
      chunkedPieces ⟨Chunked.init, [], 0⟩ [body.wire] = some (.invalid content len)) ∧
      ∀ input ∈ [bareFeeds, gappedChunk],
        (∀ body : ChunkedBody, body.Encodes → ∀ further, ¬ input <+: body.wire ++ further) ∧
          ∃ sink, chunkedPieces ⟨Chunked.init, [], 0⟩ [input] = some (.done sink []) := by
  refine ⟨⟨largeBody (List.replicate (2 ^ 59) 0), largeBody_encodes List.length_replicate,
    largeBody_refused _⟩, fun input hinput =>
      ⟨fun body h further => not_prefix_of_encoding hinput h further, ?_⟩⟩
  rw [@chunkedPieces_eq ⟨Chunked.init, [], 0⟩ .init]
  rcases List.mem_pair.1 hinput with rfl | rfl
  · exact ⟨_, rfl⟩
  · exact ⟨_, rfl⟩

end Inputs

end CloudHands.Http

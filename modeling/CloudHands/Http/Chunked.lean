import CloudHands.Lib.Loop
import CloudHands.Http.LineParse

/-!
# Chunked bodies

`ch_http_chunked_parse` of `ch_http_data_parse.c` and the loop of `_http_body_chunked_parse`
around it. The parser walks the framing with a resumable state machine and stops at the
first byte of chunk data; the loop copies as much of the chunk as the piece holds. Copied
byte by byte, the same machine gives the same result whatever the pieces are.
-/

namespace CloudHands.Http

open Lib

/-- `CH_MAX_OFF_T_VALUE`. -/
def maxOffT : ℕ := 9223372036854775807

inductive ChunkState
  | chunkStart
  | chunkSize
  | chunkExtension
  | chunkExtensionAlmostDone
  | chunkData
  | afterData
  | afterDataAlmostDone
  | lastChunkExtension
  | lastChunkExtensionAlmostDone
  | trailer
  | trailerAlmostDone
  | trailerHeader
  | trailerHeaderAlmostDone
deriving DecidableEq

structure Chunked where
  size : ℕ
  state : ChunkState
deriving DecidableEq

/-- `ch_http_session_body_chunk_init`. -/
def Chunked.init : Chunked := ⟨0, .chunkStart⟩

inductive ChunkScan
  | next (ctx : Chunked)
  | data
  | done
  | invalid

def hexValue (ch : UInt8) : Option ℕ :=
  if isDigit ch then some (digitValue ch)
  else if 97 ≤ (ch ||| 0x20) && (ch ||| 0x20) ≤ 102 then some ((ch ||| 0x20).toNat - 97 + 10)
  else none

def skipLine (ctx : Chunked) (ch : UInt8) (cr lf : ChunkState) : ChunkScan :=
  if ch = CR then .next { ctx with state := cr }
  else if ch = LF then .next { ctx with state := lf }
  else .next ctx

def expectLF (ctx : Chunked) (ch : UInt8) (lf : ChunkState) : ChunkScan :=
  if ch = LF then .next { ctx with state := lf } else .invalid

def sizeEnd (ctx : Chunked) (ch : UInt8) (cr lf ext : ChunkState) : ChunkScan :=
  if ch = CR then .next { ctx with state := cr }
  else if ch = LF then .next { ctx with state := lf }
  else if chr ch = ';' ∨ chr ch = ' ' ∨ chr ch = '\t' then .next { ctx with state := ext }
  else .invalid

def chunkedStep (ctx : Chunked) (ch : UInt8) : ChunkScan :=
  match ctx.state with
  | .chunkStart =>
    match hexValue ch with
    | some d => .next ⟨d, .chunkSize⟩
    | none => .invalid
  | .chunkSize =>
    if ctx.size > maxOffT / 16 then .invalid
    else
      match hexValue ch with
      | some d => .next ⟨ctx.size * 16 + d, .chunkSize⟩
      | none =>
        if ctx.size = 0 then
          sizeEnd ctx ch .lastChunkExtensionAlmostDone .trailer .lastChunkExtension
        else sizeEnd ctx ch .chunkExtensionAlmostDone .chunkData .chunkExtension
  | .chunkExtension => skipLine ctx ch .chunkExtensionAlmostDone .chunkData
  | .chunkExtensionAlmostDone => expectLF ctx ch .chunkData
  | .chunkData => .data
  | .afterData => skipLine ctx ch .afterDataAlmostDone .chunkStart
  | .afterDataAlmostDone => expectLF ctx ch .chunkStart
  | .lastChunkExtension => skipLine ctx ch .lastChunkExtensionAlmostDone .trailer
  | .lastChunkExtensionAlmostDone => expectLF ctx ch .trailer
  | .trailer =>
    if ch = CR then .next { ctx with state := .trailerAlmostDone }
    else if ch = LF then .done
    else .next { ctx with state := .trailerHeader }
  | .trailerAlmostDone => if ch = LF then .done else .invalid
  | .trailerHeader => skipLine ctx ch .trailerHeaderAlmostDone .trailer
  | .trailerHeaderAlmostDone => expectLF ctx ch .trailer

inductive ChunkResult
  | ok (ctx : Chunked) (rest : List UInt8)
  | again (ctx : Chunked)
  | done (ctx : Chunked) (rest : List UInt8)
  | invalid

def chunkedScan (ctx : Chunked) : List UInt8 → ChunkResult
  | [] => .again ctx
  | ch :: rest =>
    match chunkedStep ctx ch with
    | .next ctx' => chunkedScan ctx' rest
    | .data => .ok ctx (ch :: rest)
    | .done => .done { ctx with state := .chunkStart } rest
    | .invalid => .invalid

/-- The chunk after `n` bytes of its data. -/
def Chunked.consume (ctx : Chunked) (n : ℕ) : Chunked := ⟨ctx.size - n, ctx.state⟩

def Chunked.enter (ctx : Chunked) : Chunked :=
  if ctx.state = .chunkData ∧ ctx.size = 0 then { ctx with state := .afterData } else ctx

/-- The test on the size behind the label `data`. -/
def ChunkResult.checkSize : ChunkResult → ChunkResult
  | .ok ctx rest => if ctx.size > maxOffT - 5 then .invalid else .ok ctx rest
  | .again ctx => if ctx.size > maxOffT - 5 then .invalid else .again ctx
  | .done ctx rest => .done ctx rest
  | .invalid => .invalid

/-- `ch_http_chunked_parse`. -/
def chunkedParse (ctx : Chunked) (din : List UInt8) : ChunkResult :=
  (chunkedScan ctx.enter din).checkSize

structure ChunkSink where
  ctx : Chunked
  content : List UInt8
  contentLengthN : ℕ
deriving DecidableEq

def ChunkSink.append (sink : ChunkSink) (data : List UInt8) : ChunkSink :=
  { sink with
    content := sink.content ++ data
    contentLengthN := (sink.contentLengthN + data.length) % 2 ^ 64 }

inductive SinkEnd
  | again (sink : ChunkSink)
  | done (sink : ChunkSink) (rest : List UInt8)
  | invalid (content : List UInt8) (contentLengthN : ℕ)
deriving DecidableEq

def chunkedIter (st : ChunkSink × List UInt8) : Iter (ChunkSink × List UInt8) SinkEnd :=
  let (sink, din) := st
  match chunkedParse sink.ctx din with
  | .ok ctx rest =>
    let dataLen := if rest.length > ctx.size then ctx.size else rest.length
    .next (({ sink with ctx := ctx.consume dataLen } : ChunkSink).append (rest.take dataLen),
      rest.drop dataLen)
  | .done ctx rest => .leave (.done { sink with ctx := ctx } rest)
  | .again ctx => .leave (.again { sink with ctx := ctx })
  | .invalid => .leave (.invalid sink.content sink.contentLengthN)

/-- `_http_body_chunked_parse` on the part of the session it changes. -/
def chunkedBodyParse (sink : ChunkSink) (din : List UInt8) : Option SinkEnd :=
  loop chunkedIter (din.length + 1) (sink, din)

def sinkByte (sink : ChunkSink) (ch : UInt8) : Option (ChunkSink × Bool) :=
  match chunkedStep sink.ctx ch with
  | .next ctx => if ctx.size > maxOffT - 5 then none else some ({ sink with ctx := ctx }, false)
  | .data =>
    some (({ sink with ctx := (sink.ctx.consume 1).enter } : ChunkSink).append [ch], false)
  | .done => some ({ sink with ctx := { sink.ctx with state := .chunkStart } }, true)
  | .invalid => none

def sinkFold (sink : ChunkSink) : List UInt8 → SinkEnd
  | [] => .again sink
  | ch :: rest =>
    match sinkByte sink ch with
    | some (sink', false) => sinkFold sink' rest
    | some (sink', true) => .done sink' rest
    | none => .invalid sink.content sink.contentLengthN

structure Chunked.Ok (ctx : Chunked) : Prop where
  size_fits : ctx.size ≤ maxOffT - 5
  size_le : ctx.state ≠ .chunkSize → ctx.size ≤ maxOffT / 16
  size_pos : ctx.state = .chunkExtension ∨ ctx.state = .chunkExtensionAlmostDone ∨
    ctx.state = .chunkData → 0 < ctx.size

theorem Chunked.Ok.init : Chunked.init.Ok where
  size_fits := by simp [Chunked.init]
  size_le := by simp [Chunked.init]
  size_pos := by simp [Chunked.init]

theorem Chunked.Ok.enter_eq {ctx : Chunked} (h : ctx.Ok) : ctx.enter = ctx := by
  rw [Chunked.enter, if_neg]
  rintro ⟨hstate, hsize⟩
  have := h.size_pos (.inr (.inr hstate))
  omega

theorem chunkedStep_next {ctx ctx' : Chunked} {ch : UInt8} (h : chunkedStep ctx ch = .next ctx') :
    ctx'.state = .chunkSize ∨
      ctx'.size = ctx.size ∧ (ctx.state = .chunkSize → ctx.size ≤ maxOffT / 16) ∧
        (ctx'.state = .chunkExtension ∨ ctx'.state = .chunkExtensionAlmostDone ∨
          ctx'.state = .chunkData → ctx.state = .chunkSize ∧ ctx.size ≠ 0 ∨
            ctx.state = .chunkExtension ∨ ctx.state = .chunkExtensionAlmostDone) := by
  obtain ⟨size, state⟩ := ctx
  cases state <;>
    simp only [chunkedStep, skipLine, expectLF, sizeEnd] at h <;>
    grind

theorem chunkedStep_data {ctx : Chunked} {ch : UInt8} (h : chunkedStep ctx ch = .data) :
    ctx.state = .chunkData := by
  obtain ⟨size, state⟩ := ctx
  cases state <;> simp only [chunkedStep, skipLine, expectLF, sizeEnd] at h <;> grind

theorem chunkedStep_done {ctx : Chunked} {ch : UInt8} (h : chunkedStep ctx ch = .done) :
    ctx.state = .trailer ∨ ctx.state = .trailerAlmostDone := by
  obtain ⟨size, state⟩ := ctx
  cases state <;> simp only [chunkedStep, skipLine, expectLF, sizeEnd] at h <;> grind

theorem Chunked.Ok.next {ctx ctx' : Chunked} {ch : UInt8} (hctx : ctx.Ok)
    (h : chunkedStep ctx ch = .next ctx') (hfits : ctx'.size ≤ maxOffT - 5) : ctx'.Ok := by
  rcases chunkedStep_next h with hstate | ⟨hsize, hle, hpos⟩
  · exact ⟨hfits, fun hne => absurd hstate hne, by simp [hstate]⟩
  · refine ⟨hfits, fun _ => ?_, fun hin => ?_⟩
    · rw [hsize]
      by_cases hdigits : ctx.state = .chunkSize
      · exact hle hdigits
      · exact hctx.size_le hdigits
    · rw [hsize]
      rcases hpos hin with ⟨-, hne⟩ | hext | hext
      · exact Nat.pos_of_ne_zero hne
      · exact hctx.size_pos (.inl hext)
      · exact hctx.size_pos (.inr (.inl hext))

theorem checkSize_scan_of_large {ctx : Chunked} (hstate : ctx.state = .chunkSize)
    (hlarge : maxOffT - 5 < ctx.size) (din : List UInt8) :
    (chunkedScan ctx din).checkSize = .invalid := by
  cases din with
  | nil => simp [chunkedScan, ChunkResult.checkSize, hlarge]
  | cons ch rest =>
    have hover : maxOffT / 16 < ctx.size := by
      unfold maxOffT at *
      omega
    simp [chunkedScan, chunkedStep, hstate, hover, ChunkResult.checkSize]

def ScanMatches (sink : ChunkSink) (din : List UInt8) : ChunkResult → Prop
  | .ok ctx rest => ctx.Ok ∧ ctx.state = .chunkData ∧ rest ≠ [] ∧ rest.length ≤ din.length ∧
      sinkFold sink din = sinkFold { sink with ctx := ctx } rest
  | .again ctx => sinkFold sink din = .again { sink with ctx := ctx }
  | .done ctx rest => sinkFold sink din = .done { sink with ctx := ctx } rest
  | .invalid => sinkFold sink din = .invalid sink.content sink.contentLengthN

theorem scanMatches_checkSize_scan {sink : ChunkSink} (hctx : sink.ctx.Ok) (din : List UInt8) :
    ScanMatches sink din (chunkedScan sink.ctx din).checkSize := by
  induction din generalizing sink with
  | nil =>
    simp [chunkedScan, ChunkResult.checkSize, Nat.not_lt.2 hctx.size_fits, ScanMatches, sinkFold]
  | cons ch rest ih =>
    rw [chunkedScan]
    cases hstep : chunkedStep sink.ctx ch with
    | next ctx' =>
      by_cases hfits : ctx'.size ≤ maxOffT - 5
      · have hbyte : sinkFold sink (ch :: rest) = sinkFold { sink with ctx := ctx' } rest := by
          simp [sinkFold, sinkByte, hstep, Nat.not_lt.2 hfits]
        have hrest := @ih { sink with ctx := ctx' } (hctx.next hstep hfits)
        revert hrest
        cases (chunkedScan ctx' rest).checkSize with
        | ok ctx rest' =>
          rintro ⟨hok, hdata, hne, hlen, heq⟩
          exact ⟨hok, hdata, hne, by simp only [List.length_cons]; omega, hbyte.trans heq⟩
        | again ctx => exact hbyte.trans
        | done ctx rest' => exact hbyte.trans
        | invalid => exact hbyte.trans
      · have hstate : ctx'.state = .chunkSize := by
          rcases chunkedStep_next hstep with h | ⟨hsize, -⟩
          · exact h
          · exact absurd (hsize ▸ hctx.size_fits) hfits
        simp only [checkSize_scan_of_large hstate (Nat.not_le.1 hfits), ScanMatches, sinkFold,
          sinkByte, hstep, if_pos (Nat.not_le.1 hfits)]
    | data =>
      simp [ChunkResult.checkSize, Nat.not_lt.2 hctx.size_fits, ScanMatches, hctx,
        chunkedStep_data hstep]
    | done => simp [ChunkResult.checkSize, ScanMatches, sinkFold, sinkByte, hstep]
    | invalid => simp [ChunkResult.checkSize, ScanMatches, sinkFold, sinkByte, hstep]

theorem append_append (sink : ChunkSink) (ch : UInt8) (data : List UInt8) :
    (sink.append [ch]).append data = sink.append (ch :: data) := by
  have hlen : sink.contentLengthN + [ch].length + data.length =
      sink.contentLengthN + (ch :: data).length := by
    simp only [List.length_cons, List.length_nil]
    omega
  simp only [ChunkSink.append, List.append_assoc, List.singleton_append, Nat.mod_add_mod, hlen]

theorem Chunked.consume_consume (ctx : Chunked) (m n : ℕ) :
    (ctx.consume m).consume n = ctx.consume (m + n) := by
  simp [Chunked.consume, Nat.sub_sub]

theorem Chunked.enter_consume {ctx : Chunked} {n : ℕ} (h : n < ctx.size) :
    (ctx.consume n).enter = ctx.consume n := by
  rw [Chunked.enter, if_neg]
  rintro ⟨-, hzero⟩
  simp only [Chunked.consume] at hzero
  omega

theorem sinkFold_data {sink : ChunkSink} (hdata : sink.ctx.state = .chunkData) {n : ℕ}
    {rest : List UInt8} (hsize : n < sink.ctx.size) (hlen : n < rest.length) :
    sinkFold sink rest =
      sinkFold (({ sink with ctx := (sink.ctx.consume (n + 1)).enter } : ChunkSink).append
        (rest.take (n + 1))) (rest.drop (n + 1)) := by
  induction n generalizing sink rest with
  | zero =>
    cases rest with
    | nil => simp at hlen
    | cons ch rest => simp [sinkFold, sinkByte, chunkedStep, hdata]
  | succ n ih =>
    cases rest with
    | nil => simp at hlen
    | cons ch rest =>
      have hbyte : sinkFold sink (ch :: rest) =
          sinkFold (({ sink with ctx := sink.ctx.consume 1 } : ChunkSink).append [ch]) rest := by
        have hstep : chunkedStep sink.ctx ch = .data := by simp [chunkedStep, hdata]
        have henter := Chunked.enter_consume (show 1 < sink.ctx.size by omega)
        simp [sinkFold, sinkByte, hstep, henter]
      have hsize' : n < (sink.ctx.consume 1).size := by
        simp only [Chunked.consume]
        omega
      have hrest := @ih (({ sink with ctx := sink.ctx.consume 1 } : ChunkSink).append [ch])
        hdata rest hsize' (by simpa using hlen)
      rw [hbyte, hrest]
      simp only [ChunkSink.append, Chunked.consume_consume, Nat.add_comm 1 (n + 1)]
      exact congrArg (sinkFold · _) (append_append
        ({ sink with ctx := (sink.ctx.consume (n + 1 + 1)).enter } : ChunkSink) ch _)

theorem Chunked.Ok.consume {ctx : Chunked} (hctx : ctx.Ok) (hdata : ctx.state = .chunkData)
    (n : ℕ) : (ctx.consume n).enter.Ok := by
  have hle : ctx.size - n ≤ maxOffT / 16 :=
    (Nat.sub_le _ _).trans (hctx.size_le (by simp [hdata]))
  have hfits : ctx.size - n ≤ maxOffT - 5 := (Nat.sub_le _ _).trans hctx.size_fits
  by_cases hzero : ctx.size - n = 0
  · have henter : (ctx.consume n).enter = ⟨ctx.size - n, .afterData⟩ := by
      simp [Chunked.enter, Chunked.consume, hdata, hzero]
    rw [henter]
    exact ⟨hfits, fun _ => hle, by simp⟩
  · have henter : (ctx.consume n).enter = ⟨ctx.size - n, .chunkData⟩ := by
      simp [Chunked.enter, Chunked.consume, hdata, hzero]
    rw [henter]
    exact ⟨hfits, fun _ => hle, fun _ => Nat.pos_of_ne_zero hzero⟩

def ChunkSink.enter (sink : ChunkSink) : ChunkSink := { sink with ctx := sink.ctx.enter }

theorem chunkedIter_next {st st' : ChunkSink × List UInt8} (hctx : st.1.enter.ctx.Ok)
    (h : chunkedIter st = .next st') :
    st'.1.enter.ctx.Ok ∧ st'.2.length < st.2.length ∧
      ∀ r, sinkFold st'.1.enter st'.2 = r → sinkFold st.1.enter st.2 = r := by
  obtain ⟨sink, din⟩ := st
  have hscan := scanMatches_checkSize_scan hctx din
  simp only [chunkedIter, chunkedParse] at h
  revert h hscan
  simp only [ChunkSink.enter]
  cases (chunkedScan sink.ctx.enter din).checkSize with
  | ok ctx rest =>
    intro h hscan
    obtain ⟨hok, hdata, hne, hlen, heq⟩ := hscan
    have hpos := hok.size_pos (.inr (.inr hdata))
    have hrest := List.length_pos_of_ne_nil hne
    obtain ⟨n, hn⟩ : ∃ n, (if rest.length > ctx.size then ctx.size else rest.length) = n + 1 :=
      Nat.exists_eq_succ_of_ne_zero (by split <;> omega)
    have hlt : n < ctx.size ∧ n < rest.length := by
      split at hn <;> omega
    simp only [hn, Iter.next.injEq] at h
    subst h
    refine ⟨hok.consume hdata _, ?_, fun r hr => ?_⟩
    · simp only [List.length_drop]
      omega
    · rw [heq, sinkFold_data hdata hlt.1 hlt.2]
      exact hr
  | again ctx => simp
  | done ctx rest => simp
  | invalid => simp

theorem chunkedIter_leave {st : ChunkSink × List UInt8} {r : SinkEnd} (hctx : st.1.enter.ctx.Ok)
    (h : chunkedIter st = .leave r) : sinkFold st.1.enter st.2 = r := by
  obtain ⟨sink, din⟩ := st
  have hscan := scanMatches_checkSize_scan hctx din
  simp only [chunkedIter, chunkedParse] at h
  revert h hscan
  simp only [ChunkSink.enter]
  cases (chunkedScan sink.ctx.enter din).checkSize with
  | ok ctx rest => simp
  | again ctx => simp +contextual [ScanMatches]
  | done ctx rest => simp +contextual [ScanMatches]
  | invalid => simp +contextual [ScanMatches]

theorem chunkedBodyParse_eq {sink : ChunkSink} (hctx : sink.ctx.Ok) (din : List UInt8) :
    chunkedBodyParse sink din = some (sinkFold sink din) := by
  have henter : sink.enter = sink := by rw [ChunkSink.enter, hctx.enter_eq]
  obtain ⟨r, hr, hpost⟩ := loop_spec (fun st : ChunkSink × List UInt8 => st.2.length)
    (fun st => st.1.enter.ctx.Ok) (fun st r => sinkFold st.1.enter st.2 = r)
    (fun hinv _ hiter => chunkedIter_next hinv hiter)
    (fun hinv _ hiter => chunkedIter_leave hinv hiter)
    (show (sink, din).1.enter.ctx.Ok from henter.symm ▸ hctx) (Nat.lt_succ_self _)
    (loopAll_true chunkedIter _ _)
  rw [chunkedBodyParse, hr, ← hpost, henter]

end CloudHands.Http

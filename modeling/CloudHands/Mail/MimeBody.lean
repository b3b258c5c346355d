import CloudHands.Mail.Mime

/-!
# Bodies of MIME entities

What the lines of a body hand to the callback. A write finds room for three bytes in the chunk,
whatever came before, and what was handed over with what is still in the chunk is the content of the
lines.
-/

namespace CloudHands.Mail

open Http

variable {σ : Type} {f : MimeCallbacks σ} {e : MimeDecEntity} {s : MimeDecParseState σ}
  {content : List UInt8} {ret : MimeDecRetCode}

/-- What is known of the callback's data while the body of an entity is handed over, by what was
handed over and by the flag of the next chunk. A chunk may have the flag `bodyEnd` where `Ends` says
so. -/
structure BodySink (f : MimeCallbacks σ) (e : MimeDecEntity) where
  Holds : List UInt8 → Bool → σ → Prop
  Returns : MimeDecRetCode → Prop
  Ends : Bool → Prop
  returns_ok : Returns .ok
  step : ∀ {handed bodyBegin bodyEnd d}, Holds handed bodyBegin d → Ends bodyEnd → ∀ bytes, ∃ r,
    f.dataChunkProcessorFunc ⟨e, bodyBegin, bodyEnd, bytes⟩ d = some r ∧ Returns r.2 ∧
      Holds (handed ++ bytes) false r.1

def Filled (sink : BodySink f e) (s : MimeDecParseState σ) (content : List UInt8) : Prop :=
  sink.Ends s.bodyEnd ∧ ∃ handed, content = handed ++ s.dataChunk ∧
    sink.Holds handed s.bodyBegin s.data

def HasRoom (s : MimeDecParseState σ) : Prop := s.dataChunk.length + asciiBlock ≤ dataChunkSize

def SameFrame (s s' : MimeDecParseState σ) : Prop :=
  s' = { s with dataChunk := s'.dataChunk, bodyBegin := s'.bodyBegin, data := s'.data }

theorem SameFrame.refl (s : MimeDecParseState σ) : SameFrame s s := rfl

theorem SameFrame.trans {s s' s'' : MimeDecParseState σ} (h : SameFrame s s')
    (h' : SameFrame s' s'') :
    SameFrame s s'' := by
  rw [SameFrame] at h h' ⊢
  rw [h', h]

theorem SameFrame.stack {s s' : MimeDecParseState σ} (h : SameFrame s s') : s'.stack = s.stack := by
  rw [SameFrame] at h
  rw [h]

theorem SameFrame.bvremain {s s' : MimeDecParseState σ} (h : SameFrame s s') :
    s'.bvremain = s.bvremain := by
  rw [SameFrame] at h
  rw [h]

def SameEntity (s s' : MimeDecParseState σ) : Prop :=
  s' = { s with
    bvremain := s'.bvremain, dataChunk := s'.dataChunk, bodyBegin := s'.bodyBegin, data := s'.data }

theorem SameEntity.refl (s : MimeDecParseState σ) : SameEntity s s := rfl

theorem SameEntity.trans {s s' s'' : MimeDecParseState σ} (h : SameEntity s s')
    (h' : SameEntity s' s'') :
    SameEntity s s'' := by
  rw [SameEntity] at h h' ⊢
  rw [h', h]

theorem SameFrame.sameEntity {s s' : MimeDecParseState σ} (h : SameFrame s s') :
    SameEntity s s' := by
  rw [SameFrame] at h
  rw [SameEntity, h]

theorem SameEntity.of_bvremain {s s' : MimeDecParseState σ} {bytes : List UInt8}
    (h : SameEntity { s with bvremain := bytes } s') : SameEntity s s' := h

theorem SameEntity.bvremain_right {s s' : MimeDecParseState σ} {bytes : List UInt8}
    (h : SameEntity s s') :
    SameEntity s { s' with bvremain := bytes } := by
  rw [SameEntity] at h ⊢
  rw [h]

theorem SameEntity.stack {s s' : MimeDecParseState σ} (h : SameEntity s s') :
    s'.stack = s.stack := by
  rw [SameEntity] at h
  rw [h]

theorem SameEntity.fields {s s' : MimeDecParseState σ} (h : SameEntity s s') :
    s'.hname = s.hname ∧ s'.hvalue = s.hvalue ∧ s'.stateFlag = s.stateFlag ∧
      s'.foundChild = s.foundChild := by
  rw [SameEntity] at h
  rw [h]
  exact ⟨rfl, rfl, rfl, rfl⟩

def TopIs (s : MimeDecParseState σ) (e : MimeDecEntity) :
    Prop := s.stack.head?.map (·.data) = some e

theorem SameFrame.topIs {s s' : MimeDecParseState σ} (h : SameFrame s s') (htop : TopIs s e) :
    TopIs s' e := by
  rwa [TopIs, h.stack]

theorem SameEntity.topIs {s s' : MimeDecParseState σ} (h : SameEntity s s') (htop : TopIs s e) :
    TopIs s' e := by
  rwa [TopIs, h.stack]

theorem TopIs.exists_cons (h : TopIs s e) : ∃ node rest, s.stack = node :: rest ∧
    node.data = e := by
  obtain ⟨node, hnode, he⟩ := Option.map_eq_some_iff.1 h
  obtain ⟨rest, hrest⟩ := List.head?_eq_some_iff.1 hnode
  exact ⟨node, rest, hrest, he⟩

section

variable {sink : BodySink f e}

theorem processDecodedDataChunk_filled (htop : TopIs s e) (h : Filled sink s content) :
    ∃ r, processDecodedDataChunk f s = some r ∧ SameFrame s r.1 ∧ Filled sink r.1 content ∧
      r.1.dataChunk = [] ∧ r.1.bodyBegin = false ∧ sink.Returns r.2 := by
  obtain ⟨node, rest, hstack, rfl⟩ := htop.exists_cons
  obtain ⟨hends, handed, rfl, hholds⟩ := h
  obtain ⟨r, hcall, hret, hholds⟩ := sink.step hholds hends s.dataChunk
  refine ⟨({ s with dataChunk := [], bodyBegin := false, data := r.1 }, r.2), ?_, rfl, ?_, rfl, rfl,
    hret⟩
  · simp only [processDecodedDataChunk, hstack, hcall, Option.map_some]
  · exact ⟨hends, handed ++ s.dataChunk, (List.append_nil _).symm, hholds⟩

theorem flushFull_filled (htop : TopIs s e) (h : Filled sink s content) (hret : sink.Returns ret) :
    ∃ r, flushFull f s ret = some r ∧ SameFrame s r.1 ∧ Filled sink r.1 content ∧ HasRoom r.1 ∧
      sink.Returns r.2 := by
  by_cases hfull : dataChunkSize - s.dataChunk.length < asciiBlock
  · obtain ⟨r, hr, hframe, hfilled, hnil, -, hret⟩ := processDecodedDataChunk_filled htop h
    refine ⟨r, (if_pos hfull).trans hr, hframe, hfilled, ?_, hret⟩
    rw [HasRoom, hnil]
    decide
  · refine ⟨(s, ret), if_neg hfull, .refl s, h, ?_, hret⟩
    have hascii : 0 < asciiBlock := by decide
    have hroom : s.dataChunk.length + asciiBlock ≤ dataChunkSize := by omega
    exact hroom

theorem write_filled (htop : TopIs s e) (h : Filled sink s content) (hret : sink.Returns ret)
    {bytes : List UInt8} (hfits : s.dataChunk.length + bytes.length ≤ dataChunkSize) :
    ∃ s₁ r, s.appendChunk bytes = some s₁ ∧ flushFull f s₁ ret = some r ∧ SameFrame s r.1 ∧
      Filled sink r.1 (content ++ bytes) ∧ HasRoom r.1 ∧ sink.Returns r.2 := by
  obtain ⟨hends, handed, hcontent, hholds⟩ := h
  have hfilled : Filled sink { s with dataChunk := s.dataChunk ++ bytes } (content ++ bytes) :=
    ⟨hends, handed, by rw [hcontent, List.append_assoc], hholds⟩
  obtain ⟨r, hr, hframe, hrest⟩ :=
    flushFull_filled (s := { s with dataChunk := s.dataChunk ++ bytes }) htop hfilled hret
  refine ⟨_, r, if_pos hfits, hr, ?_, hrest⟩
  rw [SameFrame] at hframe ⊢
  rw [hframe]

def decodeText (text : List UInt8) : List UInt8 := (decodeBase64 text).getD []

def Blocks (text out : List UInt8) : Prop :=
  ∃ cuts : List (List UInt8), text = cuts.flatten ∧ (∀ cut ∈ cuts, 4 ∣ cut.length) ∧
    out = cuts.flatMap decodeText

theorem blocks_nil : Blocks [] [] := ⟨[], rfl, fun _ h => (List.not_mem_nil h).elim, rfl⟩

theorem blocks_single {text : List UInt8} (h : 4 ∣ text.length) :
    Blocks text (decodeText text) := by
  refine ⟨[text], List.flatten_singleton.symm, ?_, (List.flatMap_singleton _ _).symm⟩
  intro cut hcut
  rwa [List.mem_singleton.1 hcut]

theorem Blocks.append {text text' out out' : List UInt8} (h : Blocks text out)
    (h' : Blocks text' out') :
    Blocks (text ++ text') (out ++ out') := by
  obtain ⟨cuts, rfl, hcuts, rfl⟩ := h
  obtain ⟨cuts', rfl, hcuts', rfl⟩ := h'
  refine ⟨cuts ++ cuts', List.flatten_append.symm, ?_, List.flatMap_append.symm⟩
  intro cut hcut
  rcases List.mem_append.1 hcut with hcut | hcut
  · exact hcuts cut hcut
  · exact hcuts' cut hcut

theorem length_decodeGroups_le (digits : List UInt8) :
    (decodeGroups digits).length * b64Block ≤ digits.length * asciiBlock := by
  induction digits using decodeGroups.induct with
  | case1 a b c d rest ih =>
    simp only [decodeGroups, List.length_cons, b64Block, asciiBlock] at ih ⊢
    omega
  | case2 a b c => exact Nat.le_of_lt (by decide : 2 * 4 < 3 * 3)
  | case3 a b => exact Nat.le_of_lt (by decide : 1 * 4 < 2 * 3)
  | case4 digits h₁ h₂ h₃ =>
    rw [decodeGroups]
    · exact Nat.zero_le _
    all_goals assumption

theorem length_of_mapM_basis64 {text digits : List UInt8} (h : text.mapM basis64 = some digits) :
    digits.length = text.length := by
  induction text generalizing digits with
  | nil =>
    obtain rfl := Option.some.inj h
    rfl
  | cons c text ih =>
    rw [List.mapM_cons] at h
    simp only [Option.bind_eq_bind, Option.bind_eq_some_iff, Option.pure_def,
      Option.some.injEq] at h
    obtain ⟨digit, -, rest, hrest, rfl⟩ := h
    rw [List.length_cons, List.length_cons, ih hrest]

theorem length_decodeText_le (text : List UInt8) :
    (decodeText text).length * b64Block ≤ text.length * asciiBlock := by
  rw [decodeText, decodeBase64]
  cases hdigits : (text.takeWhile (· ≠ 61)).mapM basis64 with
  | none => exact Nat.zero_le _
  | some digits =>
    simp only [Option.bind_some]
    have hlength : digits.length ≤ text.length := by
      rw [length_of_mapM_basis64 hdigits]
      exact (List.takeWhile_prefix _).length_le
    split_ifs
    · exact Nat.zero_le _
    · exact (length_decodeGroups_le digits).trans (Nat.mul_le_mul_right _ hlength)

theorem decodeToChunk_filled (htop : TopIs s e) (h : Filled sink s content) (hroom : HasRoom s)
    (hret : sink.Returns ret) {src : List UInt8}
    (hfits : s.dataChunk.length + (decodeText src).length ≤ dataChunkSize) :
    ∃ r, decodeToChunk f s ret src = some r ∧ SameFrame s r.1 ∧
      Filled sink r.1 (content ++ decodeText src) ∧ HasRoom r.1 ∧ sink.Returns r.2 := by
  have hbuf : mimeDecodeBase64 src = some (decodeText src) :=
    if_pos ((Nat.le_add_left _ _).trans hfits)
  rw [decodeToChunk, hbuf]
  simp only [Option.bind_eq_bind, Option.bind_some]
  by_cases hempty : decodeText src = []
  · rw [if_pos hempty, hempty, List.append_nil]
    exact ⟨(s, ret), rfl, .refl s, h, hroom, hret⟩
  · rw [if_neg hempty]
    obtain ⟨s₁, r, happend, hflush, hrest⟩ := write_filled htop h hret hfits
    exact ⟨r, by rw [happend]; exact hflush, hrest⟩

theorem base64Loop_filled {remaining : List UInt8} {fuel : ℕ} (hfuel : remaining.length ≤ fuel)
    (hblocks : 4 ∣ remaining.length) (htop : TopIs s e) (h : Filled sink s content)
    (hroom : HasRoom s)
    (hret : sink.Returns ret) :
    ∃ r out, base64Loop f fuel s ret remaining = some r ∧ SameFrame s r.1 ∧ Blocks remaining out ∧
      Filled sink r.1 (content ++ out) ∧ HasRoom r.1 ∧ sink.Returns r.2 := by
  induction fuel generalizing s ret remaining content with
  | zero =>
    obtain rfl := List.length_eq_zero_iff.1 (Nat.le_zero.1 hfuel)
    exact ⟨(s, ret), [], rfl, .refl s, blocks_nil, by rwa [List.append_nil], hroom, hret⟩
  | succ fuel ih =>
    by_cases hempty : remaining = []
    · refine ⟨(s, ret), [], if_pos hempty, .refl s, hempty ▸ blocks_nil, by rwa [List.append_nil],
        hroom, hret⟩
    have hpos := List.length_pos_iff.2 hempty
    obtain ⟨tobuf, htobuf⟩ : ∃ n,
        n = min ((dataChunkSize - s.dataChunk.length) * b64Block / asciiBlock)
      remaining.length / 4 * 4 := ⟨_, rfl⟩
    have hroom' := hroom
    rw [HasRoom] at hroom'
    simp only [dataChunkSize, b64Block, asciiBlock] at hroom' htobuf
    have hle : tobuf ≤ remaining.length := by omega
    have hfour : 4 ≤ tobuf := by omega
    have htake : (remaining.take tobuf).length = tobuf := List.length_take_of_le hle
    have hfits : s.dataChunk.length + (decodeText (remaining.take tobuf)).length ≤
        dataChunkSize := by
      have hdecoded := length_decodeText_le (remaining.take tobuf)
      rw [htake] at hdecoded
      simp only [dataChunkSize, b64Block, asciiBlock] at hdecoded ⊢
      omega
    obtain ⟨r₁, hdecode, hframe₁, hfilled₁, hroom₁, hret₁⟩ :=
      decodeToChunk_filled htop h hroom hret hfits
    have hrest : (remaining.drop tobuf).length = remaining.length - tobuf := List.length_drop
    have hless : (remaining.drop tobuf).length ≤ fuel := by omega
    have hfours : 4 ∣ (remaining.drop tobuf).length := by omega
    obtain ⟨r, out, hloop, hframe, hout, hfilled, hroom₂, hret₂⟩ :=
      ih hless hfours (hframe₁.topIs htop) hfilled₁ hroom₁ hret₁
    refine ⟨r, decodeText (remaining.take tobuf) ++ out, ?_, hframe₁.trans hframe, ?_, ?_, hroom₂,
      hret₂⟩
    · rw [base64Loop, if_neg hempty]
      simp only [dataChunkSize, b64Block, asciiBlock, ← htobuf]
      rw [if_neg (Nat.not_lt.2 hfour), hdecode]
      exact hloop
    · have hcut : 4 ∣ (remaining.take tobuf).length := by omega
      have hboth := (blocks_single hcut).append hout
      rwa [List.take_append_drop] at hboth
    · rwa [← List.append_assoc]

theorem processBase64Remainder_filled (htop : TopIs s e) (h : Filled sink s content)
    (hshort : s.bvremain.length ≤ b64Block) (buf : List UInt8) (force : Bool) {joined : List UInt8}
    (hjoined : joined = s.bvremain ++ buf.take (b64Block - s.bvremain.length)) :
    ∃ r, processBase64Remainder f s buf force = some r ∧ SameEntity s r.1 ∧
      r.2 = min (b64Block - s.bvremain.length) buf.length ∧ HasRoom r.1 ∧
      (if joined.length = b64Block ∨ force then
        r.1.bvremain = [] ∧ Filled sink r.1 (content ++ decodeText joined)
      else r.1.bvremain = joined ∧ Filled sink r.1 content) := by
  obtain ⟨node, rest, hstack, -⟩ := htop.exists_cons
  have htaken : s.bvremain ++ buf.take (min (b64Block - s.bvremain.length) buf.length) =
      joined := by
    rw [hjoined, ← List.take_eq_take_min]
  have hlength : joined.length ≤ b64Block := by
    rw [hjoined, List.length_append, List.length_take]
    omega
  obtain ⟨r₁, hflush, hframe₁, hfilled₁, hroom₁, -⟩ :=
    flushFull_filled (s := { s with bvremain := joined }) htop h sink.returns_ok
  have hbv₁ : r₁.1.bvremain = joined := hframe₁.bvremain
  have hnonempty : r₁.1.stack ≠ [] := by
    rw [hframe₁.stack, hstack]
    exact List.cons_ne_nil _ _
  have hstart : processBase64Remainder f s buf force =
      if r₁.1.bvremain.length = b64Block ∨ force then
        if r₁.1.stack = [] then none
        else do
          let r ← decodeToChunk f r₁.1 .ok r₁.1.bvremain
          some ({ r.1 with bvremain := [] }, min (b64Block - s.bvremain.length) buf.length)
      else some (r₁.1, min (b64Block - s.bvremain.length) buf.length) := by
    rw [processBase64Remainder, htaken, hflush]
    rfl
  rw [hstart, hbv₁, if_neg hnonempty]
  by_cases hdecode : joined.length = b64Block ∨ force
  · simp only [if_pos hdecode]
    have hfits : r₁.1.dataChunk.length + (decodeText joined).length ≤ dataChunkSize := by
      have hdecoded := length_decodeText_le joined
      simp only [HasRoom, dataChunkSize, b64Block, asciiBlock] at hroom₁ hdecoded hlength ⊢
      omega
    obtain ⟨r, hr, hframe, hfilled, hroom, -⟩ :=
      decodeToChunk_filled (hframe₁.topIs htop) hfilled₁ hroom₁ sink.returns_ok hfits
    refine ⟨_, by rw [hr]; rfl, ?_, rfl, hroom, rfl, hfilled⟩
    exact hframe₁.sameEntity.of_bvremain.trans hframe.sameEntity.bvremain_right
  · simp only [if_neg hdecode]
    exact ⟨_, rfl, hframe₁.sameEntity.of_bvremain, rfl, hroom₁, hbv₁, hfilled₁⟩

def Base64Filled (sink : BodySink f e) (s : MimeDecParseState σ) (content text : List UInt8) :
    Prop :=
  ∃ whole out, text = whole ++ s.bvremain ∧ 4 ∣ whole.length ∧ s.bvremain.length < b64Block ∧
    Blocks whole out ∧ Filled sink s (content ++ out)

theorem groupStart_filled {text : List UInt8} (htop : TopIs s e)
    (h : Base64Filled sink s content text)
    (hroom : HasRoom s) (buf : List UInt8) :
    ∃ r, (if s.bvremain = [] then some (s, 0) else processBase64Remainder f s buf false) = some r ∧
      SameEntity s r.1 ∧ HasRoom r.1 ∧ Base64Filled sink r.1 content (text ++ buf.take r.2) ∧
      (r.1.bvremain = [] ∨ buf.drop r.2 = []) := by
  obtain ⟨whole, out, rfl, hwhole, hshort, hblocks, hfilled⟩ := h
  by_cases hempty : s.bvremain = []
  · refine ⟨(s, 0), if_pos hempty, .refl s, hroom, ?_, .inl hempty⟩
    exact ⟨whole, out, by rw [List.take_zero, List.append_nil], hwhole, hshort, hblocks, hfilled⟩
  obtain ⟨r, hr, hframe, htaken, hroom₁, hcases⟩ :=
    processBase64Remainder_filled htop hfilled hshort.le buf false rfl
  have htake : buf.take (b64Block - s.bvremain.length) = buf.take r.2 := by
    rw [htaken, ← List.take_eq_take_min]
  rw [htake] at hcases
  refine ⟨r, (if_neg hempty).trans hr, hframe, hroom₁, ?_⟩
  rw [List.append_assoc]
  by_cases hfull : (s.bvremain ++ buf.take r.2).length = b64Block
  · rw [if_pos (Or.inl hfull)] at hcases
    have hfour : 4 ∣ (s.bvremain ++ buf.take r.2).length := by
      rw [hfull]
      exact ⟨1, rfl⟩
    refine ⟨⟨whole ++ (s.bvremain ++ buf.take r.2), _, ?_, ?_, ?_,
      hblocks.append (blocks_single hfour),
      ?_⟩, .inl hcases.1⟩
    · rw [hcases.1, List.append_nil]
    · rw [List.length_append]
      exact Dvd.dvd.add hwhole hfour
    · rw [hcases.1]
      decide
    · rw [← List.append_assoc]
      exact hcases.2
  · rw [if_neg (by simp only [hfull, Bool.false_eq_true, or_self, not_false_eq_true])] at hcases
    rw [List.length_append, List.length_take] at hfull
    refine ⟨⟨whole, out, by rw [hcases.1], hwhole, ?_, hblocks, hcases.2⟩, .inr ?_⟩
    · rw [hcases.1, List.length_append, List.length_take]
      omega
    · rw [List.drop_eq_nil_iff]
      omega

/-- A line counts as a whole where its length is an `int`. -/
theorem processBase64BodyLine_filled {text : List UInt8} (htop : TopIs s e)
    (h : Base64Filled sink s content text)
    (hroom : HasRoom s) (buf : List UInt8) :
    ∃ r taken, processBase64BodyLine f s buf = some r ∧ SameEntity s r.1 ∧
      Base64Filled sink r.1 content (text ++ taken) ∧ HasRoom r.1 ∧ sink.Returns r.2 ∧
      (buf.length < 2 ^ 31 → taken = buf) := by
  obtain ⟨r₁, hr₁, hframe₁, hroom₁, hfilled₁, hone⟩ := groupStart_filled htop h hroom buf
  obtain ⟨left, hleft⟩ : ∃ left, left = buf.drop r₁.2 := ⟨_, rfl⟩
  rw [processBase64BodyLine, hr₁]
  simp only [Option.bind_eq_bind, Option.bind_some, ← hleft]
  by_cases hbound : 0 < left.length ∧ left.length < 2 ^ 31
  swap
  · rw [if_neg hbound]
    refine ⟨_, _, rfl, hframe₁, hfilled₁, hroom₁, sink.returns_ok, fun hbuf => ?_⟩
    have hempty : left = [] := by
      have hle : left.length ≤ buf.length := by
        rw [hleft, List.length_drop]
        exact Nat.sub_le _ _
      exact List.length_eq_zero_iff.1 (by omega)
    rw [List.take_of_length_le (List.drop_eq_nil_iff.1 (hleft.symm.trans hempty))]
  rw [if_pos hbound]
  obtain ⟨whole, out, htext, hwhole, -, hblocks, hout⟩ := hfilled₁
  have hnil : r₁.1.bvremain = [] :=
    hone.resolve_right fun hdrop => List.ne_nil_of_length_pos hbound.1 (hleft.trans hdrop)
  rw [hnil, List.append_nil] at htext
  obtain ⟨n, hn⟩ : ∃ n, n = left.length / b64Block * b64Block := ⟨_, rfl⟩
  have hfour : 4 ∣ n := ⟨left.length / b64Block, by rw [hn, Nat.mul_comm]; rfl⟩
  have hle : n ≤ left.length := hn ▸ Nat.div_mul_le_self _ _
  have hrest : left.length - n < b64Block := by
    simp only [b64Block] at hn ⊢
    omega
  obtain ⟨s₂, hs₂⟩ : ∃ s₂,
      s₂ = if n < left.length then { r₁.1 with bvremain := left.drop n } else r₁.1 :=
    ⟨_, rfl⟩
  have hcut : SameEntity r₁.1 s₂ ∧ s₂.bvremain = left.drop n ∧ HasRoom s₂ ∧
      Filled sink s₂ (content ++ out) := by
    by_cases hmore : n < left.length
    · rw [hs₂, if_pos hmore]
      exact ⟨rfl, rfl, hroom₁, hout⟩
    · rw [hs₂, if_neg hmore, hnil]
      exact ⟨.refl _, (List.drop_of_length_le (Nat.le_of_not_lt hmore)).symm, hroom₁, hout⟩
  obtain ⟨hframe₂, hbv₂, hroom₂, hfilled₂⟩ := hcut
  rw [← hn, ← hs₂]
  have htake : (left.take n).length = n := List.length_take_of_le hle
  have hless : (left.take n).length ≤ left.length := htake.trans_le hle
  obtain ⟨r, more, hloop, hframe, hmore, hfilled, hroom', hret⟩ :=
    base64Loop_filled hless (htake.symm ▸ hfour) (hframe₂.topIs (hframe₁.topIs htop)) hfilled₂
      hroom₂ sink.returns_ok
  refine ⟨r, buf, hloop, hframe₁.trans (hframe₂.trans hframe.sameEntity), ?_, hroom', hret, fun _ =>
    rfl⟩
  refine ⟨whole ++ left.take n, out ++ more, ?_, ?_, ?_, hblocks.append hmore, ?_⟩
  · rw [hframe.bvremain, hbv₂, List.append_assoc, List.take_append_drop, hleft, ← htext,
      List.append_assoc,
      List.take_append_drop]
  · rw [List.length_append, htake]
    exact Dvd.dvd.add hwhole hfour
  · rw [hframe.bvremain, hbv₂, List.length_drop]
    exact hrest
  · rwa [← List.append_assoc]

def qpText : ℕ → List UInt8 → List UInt8
  | 0, _ => []
  | _, [] => []
  | fuel + 1, c :: rest => (qpUnit c rest).1 ++ qpText fuel (qpUnit c rest).2

theorem length_qpUnit_le (c : UInt8) (rest : List UInt8) :
    (qpUnit c rest).1.length ≤ asciiBlock := by
  have heol (more : List UInt8) :
      (if more = [] then eol else []).length ≤ 2 := by split_ifs <;> decide
  rw [qpUnit]
  by_cases hmark : c ≠ 61
  · rw [if_pos hmark]
    exact Nat.succ_le_succ (heol rest)
  · rw [if_neg hmark]
    cases qpEscape rest with
    | none => exact Nat.zero_le _
    | some val => exact Nat.succ_le_succ (heol (rest.drop 2))

theorem qpLoop_filled (htop : TopIs s e) (h : Filled sink s content) (hroom : HasRoom s)
    (hret : sink.Returns ret) (fuel : ℕ) (line : List UInt8) :
    ∃ r, qpLoop f fuel s ret line = some r ∧ SameFrame s r.1 ∧
      Filled sink r.1 (content ++ qpText fuel line) ∧ HasRoom r.1 ∧ sink.Returns r.2 := by
  induction fuel generalizing s content ret line with
  | zero => exact ⟨(s, ret), rfl, .refl s, by rwa [qpText, List.append_nil], hroom, hret⟩
  | succ fuel ih =>
    cases line with
    | nil => exact ⟨(s, ret), rfl, .refl s, (List.append_nil content).symm ▸ h, hroom, hret⟩
    | cons c rest =>
      have hfits : s.dataChunk.length + (qpUnit c rest).1.length ≤ dataChunkSize :=
        (Nat.add_le_add_left (length_qpUnit_le c rest) _).trans hroom
      obtain ⟨s₁, r₁, happend, hflush, hframe₁, hfilled₁, hroom₁, hret₁⟩ :=
        write_filled htop h hret hfits
      obtain ⟨r, hr, hframe, hfilled, hroom', hret'⟩ :=
        ih (hframe₁.topIs htop) hfilled₁ hroom₁ hret₁ (qpUnit c rest).2
      refine ⟨r, ?_, hframe₁.trans hframe, ?_, hroom', hret'⟩
      · rw [qpLoop, happend]
        simp only [Option.bind_eq_bind, Option.bind_some, hflush, hr]
      · rwa [qpText, ← List.append_assoc]

theorem plainLoop_filled {remaining : List UInt8} {fuel : ℕ} (hfuel : remaining.length ≤ fuel)
    (htop : TopIs s e) (h : Filled sink s content) (hroom : HasRoom s) (hret : sink.Returns ret) :
    ∃ r, plainLoop f fuel s ret remaining = some r ∧ SameFrame s r.1 ∧
      Filled sink r.1 (content ++ if remaining = [] then [] else remaining ++ eol) ∧ HasRoom r.1 ∧
      sink.Returns r.2 := by
  induction fuel generalizing s content ret remaining with
  | zero =>
    obtain rfl := List.length_eq_zero_iff.1 (Nat.le_zero.1 hfuel)
    exact ⟨(s, ret), rfl, .refl s, by rwa [if_pos rfl, List.append_nil], hroom, hret⟩
  | succ fuel ih =>
    by_cases hempty : remaining = []
    · exact ⟨(s, ret), if_pos hempty, .refl s, by rwa [if_pos hempty, List.append_nil], hroom, hret⟩
    have hpos := List.length_pos_iff.2 hempty
    have heol : eol.length = 2 := rfl
    have hroom' := hroom
    simp only [HasRoom, dataChunkSize, asciiBlock] at hroom'
    obtain ⟨avail, havail⟩ : ∃ n, n = dataChunkSize - s.dataChunk.length := ⟨_, rfl⟩
    have havail' : avail = 3072 - s.dataChunk.length := havail
    obtain ⟨tobuf, htobuf⟩ : ∃ n, n = if remaining.length + eol.length < avail then remaining.length
      else avail - eol.length := ⟨_, rfl⟩
    have hbounds : 0 < tobuf ∧ tobuf ≤ remaining.length ∧ tobuf + 2 ≤ avail := by
      rw [heol] at htobuf
      split_ifs at htobuf <;> omega
    have hfits : s.dataChunk.length +
        (remaining.take tobuf ++ if tobuf = remaining.length then eol else []).length ≤
          dataChunkSize := by
      have hend : (if tobuf = remaining.length then eol else []).length ≤
          2 := by split_ifs <;> decide
      rw [List.length_append, List.length_take_of_le hbounds.2.1, dataChunkSize]
      omega
    obtain ⟨s₁, r₁, happend, hflush, hframe₁, hfilled₁, hroom₁, hret₁⟩ :=
      write_filled htop h hret hfits
    have hrest : (remaining.drop tobuf).length ≤ fuel := by
      rw [List.length_drop]
      omega
    obtain ⟨r, hr, hframe, hfilled, hroom₂, hret₂⟩ :=
      ih hrest (hframe₁.topIs htop) hfilled₁ hroom₁ hret₁
    refine ⟨r, ?_, hframe₁.trans hframe, ?_, hroom₂, hret₂⟩
    · rw [plainLoop, if_neg hempty, ← havail, if_neg (by rw [heol]; omega), ← htobuf]
      simp only [happend, Option.bind_eq_bind, Option.bind_some, hflush, hr]
    · have hcontent : (remaining.take tobuf ++ if tobuf = remaining.length then eol else []) ++
          (if remaining.drop tobuf = [] then [] else remaining.drop tobuf ++ eol) =
            remaining ++ eol := by
        by_cases hall : tobuf = remaining.length
        · rw [if_pos hall, hall, List.take_length, List.drop_length, if_pos rfl, List.append_nil]
        · have hmore : remaining.drop tobuf ≠ [] := by
            rw [Ne, List.drop_eq_nil_iff]
            omega
          rw [if_neg hall, if_neg hmore, List.append_nil, ← List.append_assoc,
            List.take_append_drop]
      rwa [if_neg hempty, ← hcontent, ← List.append_assoc]

def plainText (line : List UInt8) : List UInt8 := if line = [] then [] else line ++ eol

def lineText (e : MimeDecEntity) (line : List UInt8) : List UInt8 :=
  if e.isQP then qpText line.length line else plainText line

def BodyFilled (sink : BodySink f e) (s : MimeDecParseState σ) (lines : List (List UInt8)) : Prop :=
  if e.isBase64 then Base64Filled sink s [] lines.flatten
  else s.bvremain = [] ∧ Filled sink s (lines.flatMap (lineText e))

theorem Filled.start (hends : sink.Ends s.bodyEnd) (hchunk : s.dataChunk = [])
    (hholds : sink.Holds [] s.bodyBegin s.data) : Filled sink s [] :=
  ⟨hends, [], by rw [hchunk, List.nil_append], hholds⟩

theorem Filled.bodyFilled (h : Filled sink s []) (hnil : s.bvremain = []) :
    BodyFilled sink s [] := by
  rw [BodyFilled]
  split_ifs
  · refine ⟨[], [], by rw [hnil]; rfl, Nat.dvd_zero 4, ?_, blocks_nil, h⟩
    rw [hnil]
    decide
  · exact ⟨hnil, h⟩

theorem processBodyLine_filled {lines : List (List UInt8)} (htop : TopIs s e)
    (h : BodyFilled sink s lines)
    (hroom : HasRoom s) (buf : List UInt8) :
    ∃ r line, processBodyLine f s buf = some r ∧ SameEntity s r.1 ∧
      BodyFilled sink r.1 (lines ++ [line]) ∧
      HasRoom r.1 ∧ sink.Returns r.2 ∧ (buf.length < 2 ^ 31 → line = buf) := by
  obtain ⟨node, rest, hstack, rfl⟩ := htop.exists_cons
  rw [BodyFilled] at h
  by_cases hbase64 : node.data.isBase64 = true
  · rw [if_pos hbase64] at h
    obtain ⟨r, taken, hr, hframe, hfilled, hroom', hret, hwhole⟩ :=
      processBase64BodyLine_filled htop h hroom buf
    refine ⟨r, taken, ?_, hframe, ?_, hroom', hret, hwhole⟩
    · rw [processBodyLine, hstack]
      simp only [hbase64, if_true, hr]
    · rwa [BodyFilled, if_pos hbase64, List.flatten_append, List.flatten_singleton]
  rw [if_neg hbase64] at h
  have hstep : ∃ r,
      (if node.data.isQP then qpLoop f buf.length s .ok buf else plainLoop f buf.length s .ok buf)
      = some r ∧ SameFrame s r.1 ∧
      Filled sink r.1 (lines.flatMap (lineText node.data) ++ lineText node.data buf) ∧ HasRoom r.1 ∧
      sink.Returns r.2 := by
    by_cases hqp : node.data.isQP = true
    · rw [lineText, if_pos hqp, if_pos hqp]
      exact qpLoop_filled htop h.2 hroom sink.returns_ok _ _
    · rw [lineText, if_neg hqp, if_neg hqp]
      exact plainLoop_filled le_rfl htop h.2 hroom sink.returns_ok
  obtain ⟨r, hr, hframe, hfilled, hroom', hret⟩ := hstep
  refine ⟨r, buf, ?_, hframe.sameEntity, ?_, hroom', hret, fun _ => rfl⟩
  · rw [processBodyLine, hstack]
    simp only [hbase64, Bool.false_eq_true, if_false, hr]
  · rw [BodyFilled, if_neg hbase64, List.flatMap_append, List.flatMap_singleton]
    exact ⟨hframe.bvremain.trans h.1, hfilled⟩

def BodyText (e : MimeDecEntity) (lines : List (List UInt8)) (out : List UInt8) : Prop :=
  if e.isBase64 then Blocks lines.flatten out else out = lines.flatMap (lineText e)

def Whole (e : MimeDecEntity) (lines : List (List UInt8)) : Prop := e.isBase64 = true →
    4 ∣ lines.flatten.length

theorem BodyFilled.bodyText {lines : List (List UInt8)} (h : BodyFilled sink s lines)
    (hwhole : Whole e lines) :
    s.bvremain = [] ∧ ∃ out, BodyText e lines out ∧ Filled sink s out := by
  rw [BodyFilled] at h
  by_cases hbase64 : e.isBase64 = true
  · rw [if_pos hbase64] at h
    obtain ⟨whole, out, htext, hfour, hshort, hblocks, hfilled⟩ := h
    have hlines := hwhole hbase64
    have hnil : s.bvremain = [] := by
      rw [htext, List.length_append] at hlines
      rw [b64Block] at hshort
      exact List.length_eq_zero_iff.1 (by omega)
    rw [hnil, List.append_nil] at htext
    exact ⟨hnil, out, by rwa [BodyText, if_pos hbase64, htext], hfilled⟩
  · rw [if_neg hbase64] at h
    exact ⟨h.1, _, by rw [BodyText, if_neg hbase64], h.2⟩

theorem processBodyComplete_whole {node : MimeDecStackNode} {rest : List MimeDecStackNode}
    (hstack : s.stack = node :: rest) (hnil : s.bvremain = []) :
    processBodyComplete f s =
      (f.dataChunkProcessorFunc ⟨node.data, s.bodyBegin, true, s.dataChunk⟩ s.data).map fun r =>
        ({ s with dataChunk := [], bodyBegin := false, bodyEnd := false, data := r.1 }, r.2) := by
  rw [processBodyComplete]
  simp only [if_pos hnil, Option.bind_eq_bind, Option.bind_some, processDecodedDataChunk, hstack]
  cases f.dataChunkProcessorFunc ⟨node.data, s.bodyBegin, true, s.dataChunk⟩ s.data <;> rfl

end

end CloudHands.Mail

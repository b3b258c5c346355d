import CloudHands.Mail.MimeBody

/-!
# What the MIME decoder never does

With callbacks that always return, no input makes the decoder write outside of its buffers. What
it does not survive is a long line after the last boundary of the outermost entity has emptied
the stack.
-/

namespace CloudHands.Mail

open Http

variable {σ : Type} {f : MimeCallbacks σ} {s : MimeDecParseState σ} {ret : MimeDecRetCode}

structure Returning (f : MimeCallbacks σ) : Prop where
  chunk : ∀ chunk d, (f.dataChunkProcessorFunc chunk d).isSome = true
  header : ∀ name value d, (f.headerProcessorFunc name value d).isSome = true

def Returning.sink (hf : Returning f) (e : MimeDecEntity) : BodySink f e where
  Holds := fun _ _ _ => True
  Returns := fun _ => True
  Ends := fun _ => True
  returns_ok := trivial
  step := fun _ _ bytes => by
    obtain ⟨r, hr⟩ := Option.isSome_iff_exists.1 (hf.chunk ⟨e, _, _, bytes⟩ _)
    exact ⟨r, hr, trivial, trivial⟩

theorem Returning.filled (hf : Returning f) (e : MimeDecEntity) (s : MimeDecParseState σ) :
    Filled (hf.sink e) s s.dataChunk :=
  ⟨trivial, [], rfl, trivial⟩

/-- The buffers of the decoder have room, and an empty stack leaves nothing to decode. -/
structure Sound (s : MimeDecParseState σ) : Prop where
  room : HasRoom s
  remain : s.bvremain.length < b64Block
  empty : s.stack = [] → s.bvremain = []

structure BetweenLines (s : MimeDecParseState σ) : Prop extends Sound s where
  headers : s.stateFlag = .headerReady ∨ s.stateFlag = .headerStarted → s.stack ≠ []
  closed : s.stateFlag = .bodyEndBound → s.bvremain = []

def LineResult (r : MimeDecParseState σ × MimeDecRetCode) : Prop :=
  Sound r.1 ∧ (r.2 = .ok → BetweenLines r.1)

theorem Sound.of_sameEntity {s' : MimeDecParseState σ} (hstack : s.stack ≠ [])
    (hframe : SameEntity s s')
    (hroom : HasRoom s') (hremain : s'.bvremain.length < b64Block) : Sound s' :=
  ⟨hroom, hremain, fun hempty => (hstack (hframe.stack.symm.trans hempty)).elim⟩

theorem processBodyLine_sound (hf : Returning f) (h : Sound s) (hstack : s.stack ≠ [])
    (buf : List UInt8) :
    ∃ r, processBodyLine f s buf = some r ∧ SameEntity s r.1 ∧ Sound r.1 := by
  obtain ⟨node, rest, hcons⟩ := List.exists_cons_of_ne_nil hstack
  have htop : TopIs s node.data := by rw [TopIs, hcons]; rfl
  have hfilled := hf.filled node.data s
  rw [processBodyLine, hcons]
  by_cases hbase64 : node.data.isBase64 = true
  · have hstart : Base64Filled (hf.sink node.data) s s.dataChunk s.bvremain :=
      ⟨[], [], rfl, Nat.dvd_zero 4, h.remain, blocks_nil, by rwa [List.append_nil]⟩
    obtain ⟨r, taken, hr, hframe, ⟨-, -, -, -, hremain, -, -⟩, hroom, -, -⟩ :=
      processBase64BodyLine_filled htop hstart h.room buf
    simp only [hbase64, if_true]
    exact ⟨r, hr, hframe, .of_sameEntity hstack hframe hroom hremain⟩
  · simp only [hbase64, Bool.false_eq_true, if_false]
    by_cases hqp : node.data.isQP = true
    · obtain ⟨r, hr, hframe, -, hroom, -⟩ :=
        qpLoop_filled htop hfilled h.room trivial buf.length buf
      simp only [hqp, if_true]
      refine ⟨r, hr, hframe.sameEntity, .of_sameEntity hstack hframe.sameEntity hroom ?_⟩
      rw [hframe.bvremain]
      exact h.remain
    · obtain ⟨r, hr, hframe, -, hroom, -⟩ := plainLoop_filled le_rfl htop hfilled h.room trivial
      simp only [hqp, Bool.false_eq_true, if_false]
      refine ⟨r, hr, hframe.sameEntity, .of_sameEntity hstack hframe.sameEntity hroom ?_⟩
      rw [hframe.bvremain]
      exact h.remain

theorem processBodyComplete_sound (hf : Returning f) (h : Sound s) :
    ∃ r, processBodyComplete f s = some r ∧ r.1.dataChunk = [] ∧ r.1.bvremain = [] ∧
      r.1.stack = s.stack ∧
      r.1.stateFlag = s.stateFlag ∧ r.1.hvalue = s.hvalue := by
  rw [processBodyComplete]
  by_cases hstack : s.stack = []
  · have hnil := h.empty hstack
    refine ⟨({ s with dataChunk := [], bodyBegin := false, bodyEnd := false }, .errData), ?_, rfl,
      hnil, rfl, rfl, rfl⟩
    simp only [if_pos hnil, Option.bind_eq_bind, Option.bind_some, processDecodedDataChunk, hstack]
  obtain ⟨node, rest, hcons⟩ := List.exists_cons_of_ne_nil hstack
  have htop : TopIs { s with bodyEnd := true } node.data := by rw [TopIs, hcons]; rfl
  have hfilled := hf.filled node.data { s with bodyEnd := true }
  have hrest : ∃ s₁, (if s.bvremain = [] then some { s with bodyEnd := true }
      else (processBase64Remainder f { s with bodyEnd := true } [] true).map (·.1)) = some s₁ ∧
      SameEntity { s with bodyEnd := true } s₁ ∧ s₁.bvremain = [] := by
    by_cases hnil : s.bvremain = []
    · exact ⟨_, if_pos hnil, .refl _, hnil⟩
    · obtain ⟨r, hr, hframe, -, -, hcases⟩ :=
        processBase64Remainder_filled htop hfilled h.remain.le [] true rfl
      rw [if_pos (Or.inr rfl)] at hcases
      exact ⟨r.1, (if_neg hnil).trans (by rw [hr]; rfl), hframe, hcases.1⟩
  obtain ⟨s₁, hs₁, hframe, hnil⟩ := hrest
  obtain ⟨r, hr, hframe', -, hchunk, -⟩ :=
    processDecodedDataChunk_filled (hframe.topIs htop) (hf.filled node.data s₁)
  have hall := hframe.trans hframe'.sameEntity
  obtain ⟨-, hvalue, hflag, -⟩ := hall.fields
  refine ⟨({ r.1 with bodyBegin := false, bodyEnd := false }, r.2), ?_, hchunk,
    hframe'.bvremain.trans hnil,
    hall.stack, hflag, hvalue⟩
  simp only [Option.bind_eq_bind, hs₁, Option.bind_some, hr]

theorem BetweenLines.of_flag (h : Sound s)
    (hheaders : s.stateFlag = .headerReady ∨ s.stateFlag = .headerStarted →
    s.stack ≠ []) (hflag : s.stateFlag ≠ .bodyEndBound) : BetweenLines s :=
  ⟨h, hheaders, fun hclosed => (hflag hclosed).elim⟩

theorem bodyLine_result (hf : Returning f) (h : Sound s) (hstack : s.stack ≠ [])
    (hflag : s.stateFlag = .bodyStarted) (buf : List UInt8) :
    ∃ r, processBodyLine f s buf = some r ∧ LineResult r ∧ r.1.stack ≠ [] ∧
      r.1.stateFlag ≠ .headerDone := by
  obtain ⟨r, hr, hframe, hsound⟩ := processBodyLine_sound hf h hstack buf
  have hflag' : r.1.stateFlag = .bodyStarted := hframe.fields.2.2.1.trans hflag
  refine ⟨r, hr, ⟨hsound, fun _ => .of_flag hsound (fun _ => hframe.stack ▸ hstack) ?_⟩,
    hframe.stack ▸ hstack, ?_⟩
  · rw [hflag']
    exact MimeStateFlag.noConfusion
  · rw [hflag']
    exact MimeStateFlag.noConfusion

theorem storeMimeHeader_sound (hf : Returning f) (h : Sound s) :
    ∃ r, storeMimeHeader f s = some r ∧ Sound r.1 ∧ (r.1.stack = [] ↔ s.stack = []) := by
  rw [storeMimeHeader]
  by_cases hvalue : s.hvalue = []
  · exact ⟨_, if_pos hvalue, ⟨h.room, h.remain, h.empty⟩, Iff.rfl⟩
  · rw [if_neg hvalue]
    cases s.hname with
    | none => exact ⟨_, rfl, ⟨h.room, h.remain, h.empty⟩, Iff.rfl⟩
    | some hname =>
      by_cases hstack : s.stack = []
      · exact ⟨_, if_pos hstack, ⟨h.room, h.remain, h.empty⟩, Iff.rfl⟩
      · obtain ⟨d, hd⟩ := Option.isSome_iff_exists.1 (hf.header (hname.map toLower) s.hvalue s.data)
        have hmap (g : MimeDecEntity → MimeDecEntity) :
            (s.stack.modifyHead fun node => { node with data := g node.data }) = [] ↔
              s.stack = [] := by
          cases s.stack <;> simp
        simp only [if_neg hstack, hd, Option.map_some]
        exact ⟨_, rfl, ⟨h.room, h.remain, fun hnil => h.empty ((hmap (fillField · _ _)).1 hnil)⟩,
          hmap (fillField · _ _)⟩

theorem findMimeHeader_result (hf : Returning f) (h : Sound s) (hstack : s.stack ≠ [])
    (buf : List UInt8) :
    ∃ r, findMimeHeader f s buf = some r ∧ LineResult r ∧ r.1.stack ≠ [] := by
  rw [findMimeHeader]
  cases findMimeHeaderStart buf with
  | some hlen =>
    have hstored : ∃ r,
        (if s.stateFlag = .headerStarted then storeMimeHeader f s else some (s, .ok)) = some r ∧
        Sound r.1 ∧ (r.1.stack = [] ↔ s.stack = []) := by
      split_ifs
      · exact storeMimeHeader_sound hf h
      · exact ⟨_, rfl, h, Iff.rfl⟩
    obtain ⟨r, hr, hsound, hempty⟩ := hstored
    have hne : r.1.stack ≠ [] := fun hnil => hstack (hempty.1 hnil)
    have hstarted : Sound { r.1 with stateFlag := .headerStarted } :=
      ⟨hsound.room, hsound.remain, hsound.empty⟩
    simp only [hr, Option.bind_eq_bind, Option.bind_some]
    split_ifs with hret hvalue
    · exact ⟨_, rfl, ⟨hstarted, fun hok => (hret hok).elim⟩, hne⟩
    · exact ⟨_, rfl, ⟨⟨hsound.room, hsound.remain, hsound.empty⟩, fun hok =>
        MimeDecRetCode.noConfusion hok⟩, hne⟩
    · exact ⟨_, rfl, ⟨⟨hsound.room, hsound.remain, hsound.empty⟩, fun _ => .of_flag
        ⟨hsound.room, hsound.remain, hsound.empty⟩ (fun _ => hne) MimeStateFlag.noConfusion⟩, hne⟩
  | none =>
    dsimp only
    split_ifs with hblank hflag
    · obtain ⟨r, hr, hsound, hempty⟩ := storeMimeHeader_sound hf h
      have hne : r.1.stack ≠ [] := fun hnil => hstack (hempty.1 hnil)
      rw [hr]
      exact ⟨_, rfl, ⟨⟨hsound.room, hsound.remain, hsound.empty⟩, fun _ => .of_flag
        ⟨hsound.room, hsound.remain, hsound.empty⟩ (fun _ => hne) MimeStateFlag.noConfusion⟩, hne⟩
    · have hsound : Sound (addDataValue s buf) := ⟨h.room, h.remain, h.empty⟩
      refine ⟨_, rfl, ⟨hsound, fun _ => .of_flag hsound (fun _ => hstack) ?_⟩, hstack⟩
      exact fun hclosed => MimeStateFlag.noConfusion (hflag.symm.trans hclosed)
    · obtain ⟨r, hr, hresult, hne, -⟩ := bodyLine_result hf
        (s := { s with stateFlag := .bodyStarted, bodyBegin := true, bodyEnd := false })
        ⟨h.room, h.remain, h.empty⟩ hstack rfl buf
      exact ⟨r, hr, hresult, hne⟩

theorem headersDone_result (h : Sound s) (hflag : s.stateFlag = .headerDone)
    (node : MimeDecStackNode)
    (rest : List MimeDecStackNode) : LineResult (headersDone s node rest) := by
  rw [headersDone]
  split_ifs
  · exact ⟨⟨h.room, h.remain, fun hnil => (List.cons_ne_nil _ _ hnil).elim⟩, fun hok =>
      MimeDecRetCode.noConfusion hok⟩
  · exact ⟨⟨h.room, h.remain, fun hnil => (List.cons_ne_nil _ _ hnil).elim⟩, fun _ => .of_flag
      ⟨h.room, h.remain, fun hnil => (List.cons_ne_nil _ _ hnil).elim⟩ (fun _ =>
        List.cons_ne_nil _ _)
      MimeStateFlag.noConfusion⟩
  · refine ⟨⟨h.room, h.remain, fun hnil => (List.cons_ne_nil _ _ hnil).elim⟩, fun _ => .of_flag
      ⟨h.room, h.remain, fun hnil => (List.cons_ne_nil _ _ hnil).elim⟩ (fun _ =>
        List.cons_ne_nil _ _) ?_⟩
    exact fun hclosed => MimeStateFlag.noConfusion (hflag.symm.trans hclosed)

theorem processMimeHeaders_result (hf : Returning f) (h : Sound s) (hstack : s.stack ≠ [])
    (buf : List UInt8) :
    ∃ r, processMimeHeaders f s buf = some r ∧ LineResult r := by
  obtain ⟨r, hr, hresult, hne⟩ := findMimeHeader_result hf h hstack buf
  obtain ⟨node, rest, hcons⟩ := List.exists_cons_of_ne_nil hne
  rw [processMimeHeaders, if_neg hstack, hr]
  simp only [Option.bind_eq_bind, Option.bind_some, hcons]
  split_ifs with hret hdone
  · exact ⟨r, rfl, hresult⟩
  · exact ⟨_, rfl, headersDone_result hresult.1 hdone node rest⟩
  · exact ⟨r, rfl, hresult⟩

theorem sound_of_nil (hroom : HasRoom s) (hnil : s.bvremain = []) : Sound s :=
  ⟨hroom, by rw [hnil]; decide, fun _ => hnil⟩

theorem popEncap_result (hstack : s.stack ≠ []) :
    ∃ r, popEncap s = some r ∧ r.1.dataChunk = s.dataChunk ∧ r.1.bvremain = s.bvremain := by
  rw [popEncap]
  match hcons : s.stack with
  | [] => exact (hstack hcons).elim
  | [node] => exact ⟨_, rfl, rfl, rfl⟩
  | node :: parent :: rest =>
    refine ⟨_, rfl, ?_, ?_⟩
    · split_ifs <;> rfl
    · split_ifs <;> rfl

theorem processMimeBoundary_result (hf : Returning f) (h : BetweenLines s) (hstack : s.stack ≠ [])
    (buf : List UInt8) (bdefLen : ℕ) :
    ∃ r, processMimeBoundary f s buf bdefLen = some r ∧ LineResult r := by
  have hfirst : ∃ r, (if s.stateFlag ≠ .bodyEndBound then processBodyComplete f s
      else some ({ s with stateFlag := .headerReady }, .ok)) = some r ∧ HasRoom r.1 ∧
        r.1.bvremain = [] ∧
      r.1.stack = s.stack := by
    by_cases hflag : s.stateFlag ≠ .bodyEndBound
    · obtain ⟨r, hr, hchunk, hnil, hsame, -, -⟩ := processBodyComplete_sound hf h.toSound
      refine ⟨r, (if_pos hflag).trans hr, ?_, hnil, hsame⟩
      rw [HasRoom, hchunk]
      decide
    · exact ⟨_, if_neg hflag, h.room, h.closed (not_not.1 hflag), rfl⟩
  obtain ⟨r, hr, hroom, hnil, hsame⟩ := hfirst
  obtain ⟨r₁, hr₁, hchunk₁, hnil₁⟩ := popEncap_result (hsame ▸ hstack)
  have hroom₁ : HasRoom r₁.1 := by rwa [HasRoom, hchunk₁]
  rw [hnil] at hnil₁
  rw [processMimeBoundary, hr]
  simp only [Option.bind_eq_bind, Option.bind_some, hr₁]
  have hfail (r : MimeDecParseState σ × MimeDecRetCode) (hroom : HasRoom r.1)
      (hnil : r.1.bvremain = [])
      (hret : r.2 ≠ .ok) : LineResult r := ⟨sound_of_nil hroom hnil, fun hok => (hret hok).elim⟩
  have hdone (s : MimeDecParseState σ) (hroom : HasRoom s) (hnil : s.bvremain = [])
      (hheaders : s.stateFlag = .headerReady ∨ s.stateFlag = .headerStarted → s.stack ≠ []) :
      LineResult (s, .ok) :=
    ⟨sound_of_nil hroom hnil, fun _ => ⟨sound_of_nil hroom hnil, hheaders, fun _ => hnil⟩⟩
  have hended :
      ¬(MimeStateFlag.bodyEndBound = .headerReady ∨
      MimeStateFlag.bodyEndBound = .headerStarted) := by
    decide
  by_cases hret : r.2 = .ok
  swap
  · rw [if_pos hret]
    exact ⟨r, rfl, hfail r hroom hnil hret⟩
  rw [if_neg (not_not_intro hret)]
  by_cases hret₁ : r₁.2 = .ok
  swap
  · rw [if_pos hret₁]
    exact ⟨r₁, rfl, hfail r₁ hroom₁ hnil₁ hret₁⟩
  rw [if_neg (not_not_intro hret₁)]
  by_cases hlast : (buf.drop (bdefLen + 2)).take 2 = bytesOf "--"
  · rw [if_pos hlast]
    cases r₁.1.popStack.stack with
    | nil => exact ⟨_, rfl, hfail _ hroom₁ hnil₁ MimeDecRetCode.noConfusion⟩
    | cons node rest =>
      dsimp only
      split_ifs
      · exact ⟨_, rfl, hfail _ hroom₁ hnil₁ MimeDecRetCode.noConfusion⟩
      · exact ⟨_, rfl, hdone _ hroom₁ hnil₁ fun hflag => (hended hflag).elim⟩
      · exact ⟨_, rfl, hdone _ hroom₁ hnil₁ fun hflag => (hended hflag).elim⟩
  · rw [if_neg hlast]
    split_ifs
    · exact ⟨_, rfl, hdone _ hroom₁ hnil₁ fun _ => List.cons_ne_nil _ _⟩
    · exact ⟨_, rfl, hfail _ hroom₁ hnil₁ MimeDecRetCode.noConfusion⟩
    · exact ⟨_, rfl, hdone _ hroom₁ hnil₁ fun _ => List.cons_ne_nil _ _⟩

theorem processMimeBody_result (hf : Returning f) (h : BetweenLines s) (buf : List UInt8) :
    ∃ r, processMimeBody f s buf = some r ∧ LineResult r := by
  rw [processMimeBody]
  by_cases hblank : buf = []
  · exact ⟨_, if_pos hblank, h.toSound, fun _ => h⟩
  rw [if_neg hblank]
  by_cases hstack : s.stack = []
  · exact ⟨_, if_pos hstack, h.toSound, fun hok => MimeDecRetCode.noConfusion hok⟩
  rw [if_neg hstack]
  obtain ⟨r, hr, hresult, -, -⟩ := bodyLine_result hf (s := { s with stateFlag := .bodyStarted })
    ⟨h.room, h.remain, h.empty⟩ hstack rfl buf
  cases currentBoundary s with
  | none => exact ⟨r, hr, hresult⟩
  | some bdef =>
    dsimp only
    split_ifs
    · exact ⟨_, rfl, h.toSound, fun hok => MimeDecRetCode.noConfusion hok⟩
    · exact processMimeBoundary_result hf h hstack buf bdef.length
    · exact ⟨r, hr, hresult⟩
    · exact ⟨r, hr, hresult⟩

/-- A line is survived unless it is long and there is no entity left. -/
def Survived (s : MimeDecParseState σ) (line : List UInt8) : Prop := s.stack = [] →
    line.length ≤ maxLineLen

instance (s : MimeDecParseState σ) (line : List UInt8) : Decidable (Survived s line) :=
  inferInstanceAs (Decidable (_ → _))

theorem mimeDecParseLine_between (hf : Returning f) (h : BetweenLines s) {line : List UInt8}
    (hline : Survived s line) : ∃ s', mimeDecParseLine f s line = some s' ∧ BetweenLines s' := by
  have hentity : ∃ r, processMimeEntity f s line = some r ∧ LineResult r := by
    rw [processMimeEntity, if_neg fun hlong => Nat.not_lt.2 (hline hlong.2) hlong.1]
    split_ifs with hheaders
    · exact processMimeHeaders_result hf h.toSound (h.headers hheaders) line
    · exact processMimeBody_result hf h line
  obtain ⟨r, hr, hsound, hbetween⟩ := hentity
  refine ⟨if r.2 ≠ .ok then { r.1 with stateFlag := .parseError } else r.1,
    by rw [mimeDecParseLine, hr]; rfl, ?_⟩
  by_cases hret : r.2 = .ok
  · rw [if_neg (not_not_intro hret)]
    exact hbetween hret
  · rw [if_pos hret]
    refine .of_flag ⟨hsound.room, hsound.remain, hsound.empty⟩ (fun hflag =>
      ?_) MimeStateFlag.noConfusion
    rcases hflag with hflag | hflag <;> exact MimeStateFlag.noConfusion hflag

theorem survived_of_parseLine {s' : MimeDecParseState σ} {line : List UInt8}
    (h : mimeDecParseLine f s line = some s') : Survived s line := by
  intro hstack
  by_contra hlong
  rw [mimeDecParseLine, processMimeEntity, if_pos ⟨Nat.lt_of_not_le hlong, hstack⟩] at h
  exact Option.some_ne_none _ h.symm

theorem betweenLines_init (d : σ) : BetweenLines (mimeDecInit d) where
  room := (by decide : 0 + asciiBlock ≤ dataChunkSize)
  remain := (by decide : 0 < b64Block)
  empty := fun _ => rfl
  headers := fun _ => List.cons_ne_nil _ _
  closed := fun _ => rfl

theorem mimeDecParseComplete_isSome (hf : Returning f) (h : Sound s) :
    (mimeDecParseComplete f s).isSome = true := by
  obtain ⟨r, hr, hsound, -⟩ := storeMimeHeader_sound hf h
  obtain ⟨r₁, hr₁, -⟩ := processBodyComplete_sound hf hsound
  rw [mimeDecParseComplete, hr]
  simp only [Option.bind_eq_bind, Option.bind_some, hr₁]
  split_ifs
  · rfl
  · rfl
  · cases r₁.1.stack with
    | nil => rfl
    | cons node rest =>
      dsimp only
      split_ifs <;> rfl

def byteCount : MimeCallbacks ℕ := ⟨fun chunk n => some (n + chunk.bytes.length, .ok), fun _ _ n =>
  some n⟩

theorem byteCount_returning : Returning byteCount := ⟨fun _ _ => rfl, fun _ _ _ => rfl⟩

def closedMail : List (List UInt8) :=
  [bytesOf "Content-Type: multipart/mixed; boundary=\"b\"", [], bytesOf "--b--"]

end CloudHands.Mail

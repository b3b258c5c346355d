import CloudHands.Mail.MimeTree

/-!
# Decoding of a tree

The decoder over the lines of a tree, by the shape of the tree. While an entity is read, the stack
holds it over the entities it is a part of; at its end a boundary, or the end of the mail, finds the
state it can close.
-/

namespace CloudHands.Mail

open Http

variable {σ : Type} {R : MimeReceiver σ} {rest : List MimeDecStackNode} {isEncap begun : Bool}
  {e : MimeDecEntity} {d : σ} {s : MimeDecParseState σ}

theorem parseLines_cons (f : MimeCallbacks σ) (s : MimeDecParseState σ) (line : List UInt8)
    (lines : List (List UInt8)) :
    mimeDecParseLines f s (line :: lines) =
      (mimeDecParseLine f s line).bind (mimeDecParseLines f · lines) := rfl

theorem parseLines_append (f : MimeCallbacks σ) (s : MimeDecParseState σ)
    (lines lines' : List (List UInt8)) :
    mimeDecParseLines f s (lines ++ lines') =
      (mimeDecParseLines f s lines).bind (mimeDecParseLines f · lines') :=
  Lib.runFrom_append _ s lines lines'

theorem parseLine_ok {f : MimeCallbacks σ} {s s' : MimeDecParseState σ} {line : List UInt8}
    (h : processMimeEntity f s line = some (s', .ok)) : mimeDecParseLine f s line = some s' := by
  rw [mimeDecParseLine, h]
  rfl

def inHeaders (isEncap : Bool) (rest : List MimeDecStackNode) (begun : Bool) (e : MimeDecEntity)
    (d : σ)
    (p : Option (List UInt8 × List UInt8)) : MimeDecParseState σ :=
  ⟨⟨e, none, isEncap⟩ :: rest, p.map (·.1), p.elim [] (·.2), [], [],
    if p.isSome then .headerStarted else .headerReady, false, begun, false, d⟩

def fresh (isEncap : Bool) (rest : List MimeDecStackNode) (begun : Bool) (d : σ) :
    MimeDecParseState σ :=
  inHeaders isEncap rest begun .empty d none

def headersRead (isEncap : Bool) (rest : List MimeDecStackNode) (begun : Bool) (e : MimeDecEntity)
    (d : σ) :
    MimeDecParseState σ :=
  ⟨⟨e, none, isEncap⟩ :: rest, none, [], [], [], .headerDone, false, begun, false, d⟩

def PendingText (p : Option (List UInt8 × List UInt8)) : Prop := 0 ∉ p.elim [] (·.2)

theorem pendingText_none : PendingText none := List.not_mem_nil

theorem storeMimeHeader_inHeaders {p : Option (List UInt8 × List UInt8)} (htext : PendingText p) :
    storeMimeHeader R.callbacks (inHeaders isEncap rest begun e d p) =
      some ({ inHeaders isEncap rest begun (settleEntity e p) (settleData R d p) none with
        stateFlag := (inHeaders isEncap rest begun e d p).stateFlag }, .ok) := by
  cases p with
  | none => rfl
  | some field =>
    obtain ⟨name, value⟩ := field
    by_cases hempty : value = []
    · subst hempty
      rfl
    · have hcall : R.callbacks.headerProcessorFunc (name.map toLower) value d =
          some (R.receiveHeader (name.map toLower) value d) := R.header_eq _ _ htext
      simp only [storeMimeHeader, inHeaders, Option.elim_some, Option.elim_none, Option.map_some,
        Option.map_none,
        if_neg hempty, List.cons_ne_nil, if_false, hcall, MimeDecParseState.mapTop,
          List.modifyHead_cons,
        settleEntity, settleData]

theorem findMimeHeaderStart_header {h : MimeHeader} (hvalid : h.Valid) :
    findMimeHeaderStart (h.name ++ 58 :: h.value) = some h.name.length := by
  have hname : (h.name ++ 58 :: h.value).takeWhile (fun c => decide (c ≠ 58 ∧ 33 ≤ c ∧ c ≤ 126)) =
      h.name := by
    rw [List.takeWhile_append_of_pos fun c hc => decide_eq_true (hvalid.name_chars c hc),
      List.takeWhile_cons_of_neg (by decide), List.append_nil]
  rw [findMimeHeaderStart]
  simp only [hname]
  rw [if_pos]
  exact ⟨hvalid.name_ne, by rw [List.getElem?_append_right le_rfl, Nat.sub_self]; rfl⟩

theorem parseLine_inHeaders {f : MimeCallbacks σ} {p : Option (List UInt8 × List UInt8)}
    {line : List UInt8}
    {s : MimeDecParseState σ}
    (hfind : findMimeHeader f (inHeaders isEncap rest begun e d p) line = some (s, .ok))
    (hstack : s.stack ≠ []) (hflag : s.stateFlag ≠ .headerDone) :
    mimeDecParseLine f (inHeaders isEncap rest begun e d p) line = some s := by
  have hheaders : (inHeaders isEncap rest begun e d p).stateFlag = .headerReady ∨
      (inHeaders isEncap rest begun e d p).stateFlag = .headerStarted := by
    cases p
    · exact .inl rfl
    · exact .inr rfl
  have htop : (inHeaders isEncap rest begun e d p).stack ≠ [] := List.cons_ne_nil _ _
  obtain ⟨node, stack, hcons⟩ := List.exists_cons_of_ne_nil hstack
  refine parseLine_ok ?_
  rw [processMimeEntity, if_neg fun hlong => htop hlong.2, if_pos hheaders, processMimeHeaders,
    if_neg htop, hfind]
  simp only [Option.bind_eq_bind, Option.bind_some, ne_eq, not_true_eq_false, if_false, hcons,
    if_neg hflag]

theorem parseLine_header {p : Option (List UInt8 × List UInt8)} (htext : PendingText p)
    {h : MimeHeader}
    (hvalid : h.Valid) :
    mimeDecParseLine R.callbacks (inHeaders isEncap rest begun e d p) (h.name ++ 58 :: h.value) =
      some (inHeaders isEncap rest begun (settleEntity e p) (settleData R d p)
        (some (h.name, (h.value.dropWhile (· = 32)).take headerValueDepth))) := by
  have hvalue : headerValue (h.name ++ 58 :: h.value) h.name.length =
      h.value.dropWhile (· = 32) := by
    rw [headerValue, ← List.drop_drop, List.drop_left]
    rfl
  have hstored : (if (inHeaders isEncap rest begun e d p).stateFlag = .headerStarted then
        storeMimeHeader R.callbacks (inHeaders isEncap rest begun e d p)
      else some (inHeaders isEncap rest begun e d p, .ok)) =
      some ({ inHeaders isEncap rest begun (settleEntity e p) (settleData R d p) none with
        stateFlag := (inHeaders isEncap rest begun e d p).stateFlag }, .ok) := by
    cases p with
    | none => rfl
    | some field => exact storeMimeHeader_inHeaders htext
  refine parseLine_inHeaders ?_ (List.cons_ne_nil _ _) (by exact MimeStateFlag.noConfusion)
  rw [findMimeHeader, findMimeHeaderStart_header hvalid]
  simp only [hstored, Option.bind_eq_bind, Option.bind_some, ne_eq, not_true_eq_false, if_false,
    hvalue,
    List.take_left]
  rfl

theorem parseLine_fold {f : MimeCallbacks σ} {name value fold : List UInt8} (hne : fold ≠ [])
    (hstart : findMimeHeaderStart fold = none) :
    mimeDecParseLine f (inHeaders isEncap rest begun e d (some (name, value))) fold =
      some (inHeaders isEncap rest begun e d
        (some (name, value ++ fold.take (headerValueDepth - value.length)))) := by
  refine parseLine_inHeaders ?_ (List.cons_ne_nil _ _) (by exact MimeStateFlag.noConfusion)
  rw [findMimeHeader, hstart]
  simp only [if_neg hne]
  rfl

theorem parseLines_folds {f : MimeCallbacks σ} {name text : List UInt8} {folds : List (List UInt8)}
    (hfolds : ∀ fold ∈ folds, fold ≠ [] ∧ findMimeHeaderStart fold = none) :
    mimeDecParseLines f
        (inHeaders isEncap rest begun e d (some (name, text.take headerValueDepth))) folds =
      some (inHeaders isEncap rest begun e d
        (some (name, (text ++ folds.flatten).take headerValueDepth))) := by
  induction folds generalizing text with
  | nil => rw [List.flatten_nil, List.append_nil]; rfl
  | cons fold folds ih =>
    obtain ⟨hne, hstart⟩ := hfolds fold List.mem_cons_self
    have htake :
        text.take headerValueDepth ++
        fold.take (headerValueDepth - (text.take headerValueDepth).length) =
        (text ++ fold).take headerValueDepth := by
      rw [List.take_append, List.length_take]
      congr 2
      omega
    rw [parseLines_cons, parseLine_fold hne hstart, Option.bind_some, htake,
      ih fun fold hfold => hfolds fold (List.mem_cons_of_mem _ hfold), List.append_assoc,
        List.flatten_cons]

theorem parseLines_header {p : Option (List UInt8 × List UInt8)} (htext : PendingText p)
    {h : MimeHeader}
    (hvalid : h.Valid) :
    mimeDecParseLines R.callbacks (inHeaders isEncap rest begun e d p) h.lines =
      some (inHeaders isEncap rest begun (settleEntity e p) (settleData R d p) (some (h.name,
        h.stored))) := by
  rw [MimeHeader.lines, parseLines_cons, parseLine_header htext hvalid, Option.bind_some,
    parseLines_folds hvalid.folds, MimeHeader.stored]

theorem parseLine_blank {p : Option (List UInt8 × List UInt8)} (htext : PendingText p)
    {s : MimeDecParseState σ}
    (hdone : headersDone (headersRead isEncap rest begun (settleEntity e p) (settleData R d p))
      ⟨settleEntity e p, none, isEncap⟩ rest = (s, .ok)) :
    mimeDecParseLine R.callbacks (inHeaders isEncap rest begun e d p) [] = some s := by
  have hheaders : (inHeaders isEncap rest begun e d p).stateFlag = .headerReady ∨
      (inHeaders isEncap rest begun e d p).stateFlag = .headerStarted := by
    cases p
    · exact .inl rfl
    · exact .inr rfl
  have htop : (inHeaders isEncap rest begun e d p).stack ≠ [] := List.cons_ne_nil _ _
  have hfind : findMimeHeader R.callbacks (inHeaders isEncap rest begun e d p) [] =
      some (headersRead isEncap rest begun (settleEntity e p) (settleData R d p), .ok) := by
    have hstart : findMimeHeaderStart [] = none := rfl
    rw [findMimeHeader, hstart]
    simp only [if_true, storeMimeHeader_inHeaders htext, Option.map_some]
    rfl
  refine parseLine_ok ?_
  rw [processMimeEntity, if_neg fun hlong => htop hlong.2, if_pos hheaders, processMimeHeaders,
    if_neg htop, hfind]
  simp only [Option.bind_eq_bind, Option.bind_some, ne_eq, not_true_eq_false, if_false]
  exact congrArg some hdone

theorem parseLines_headers {headers : List MimeHeader} (hvalid : ∀ h ∈ headers, h.Valid)
    {p : Option (List UInt8 × List UInt8)} (htext : PendingText p) {s : MimeDecParseState σ}
    {e' : MimeDecEntity}
    (he :
      headers.foldl (fun e h => settleEntity e (some (h.name, h.stored))) (settleEntity e p) = e')
    (hdone :
      headersDone (headersRead isEncap rest begun e' (receiveHeaders R headers (settleData R d p)))
      ⟨e', none, isEncap⟩ rest = (s, .ok)) :
    mimeDecParseLines R.callbacks (inHeaders isEncap rest begun e d p) (headerLines headers) =
      some s := by
  induction headers generalizing e d p with
  | nil =>
    obtain rfl := he
    rw [headerLines, List.flatMap_nil, List.nil_append, parseLines_cons,
      parseLine_blank htext hdone]
    rfl
  | cons h headers ih =>
    have hhead := hvalid h List.mem_cons_self
    rw [headerLines, List.flatMap_cons, List.append_assoc, parseLines_append,
      parseLines_header htext hhead,
      Option.bind_some]
    exact ih (fun h' hh' => hvalid h' (List.mem_cons_of_mem h hh')) hhead.text he hdone

theorem parseLines_fresh {headers : List MimeHeader} (hvalid : ∀ h ∈ headers, h.Valid)
    {s : MimeDecParseState σ}
    (hdone :
      headersDone (headersRead isEncap rest begun (entityOf headers) (receiveHeaders R headers d))
      ⟨entityOf headers, none, isEncap⟩ rest = (s, .ok)) :
    mimeDecParseLines R.callbacks (fresh isEncap rest begun d) (headerLines headers) = some s :=
  parseLines_headers hvalid pendingText_none rfl hdone

theorem headersDone_leaf (hboundary : e.boundary = none) (hmessage : e.isMessage = false) :
    headersDone (headersRead isEncap rest begun e d) ⟨e, none, isEncap⟩ rest =
      (⟨⟨e.describe, none, isEncap⟩ :: rest, none, [], [], [], .headerDone, false, true, false, d⟩,
        .ok) := by
  simp only [headersDone, hboundary, hmessage, Option.any_none, Bool.false_eq_true, if_false]
  rfl

theorem headersDone_multipart {b : List UInt8} (hboundary : e.boundary = some b)
    (hlength : b.length + 2 ≤ boundaryBuf) (hmessage : e.isMessage = false) :
    headersDone (headersRead isEncap rest begun e d) ⟨e, none, isEncap⟩ rest =
      (⟨⟨e.describe, some b, isEncap⟩ :: rest, none, [], [], [], .headerDone, true, true, false, d⟩,
        .ok) := by
  have hfits : ¬boundaryBuf - 2 < b.length := by omega
  simp only [headersDone, hboundary, hmessage, Option.any_some, hfits, decide_false,
    Bool.false_eq_true, if_false]
  rfl

theorem headersDone_message (hboundary : e.boundary = none) (hmessage : e.isMessage = true) :
    headersDone (headersRead isEncap rest begun e d) ⟨e, none, isEncap⟩ rest =
      (fresh true (⟨e.describe, none, isEncap⟩ :: rest) true d, .ok) := by
  simp only [headersDone, hboundary, hmessage, Option.any_none, Bool.false_eq_true, if_false,
    if_true]
  rfl

structure InBody (R : MimeReceiver σ) (node : MimeDecStackNode) (rest : List MimeDecStackNode)
    (foundChild : Bool) (d : σ) (lines : List (List UInt8)) (s : MimeDecParseState σ) : Prop where
  stack : s.stack = node :: rest
  hname : s.hname = none
  hvalue : s.hvalue = []
  flag : s.stateFlag = .headerDone ∨ s.stateFlag = .bodyStarted
  foundChild : s.foundChild = foundChild
  room : HasRoom s
  filled : BodyFilled (R.body node.data d) s lines

variable {node : MimeDecStackNode} {foundChild : Bool} {lines : List (List UInt8)}

theorem InBody.start (node : MimeDecStackNode) (rest : List MimeDecStackNode) (foundChild : Bool)
    (d : σ) :
    InBody R node rest foundChild d []
      ⟨node :: rest, none, [], [], [], .headerDone, foundChild, true, false, d⟩ where
  stack := rfl
  hname := rfl
  hvalue := rfl
  flag := .inl rfl
  foundChild := rfl
  room := (by decide : 0 + asciiBlock ≤ dataChunkSize)
  filled := (Filled.start (R.body_ends _ _) rfl (R.body_begin _ _)).bodyFilled rfl

theorem flatten_concat_nil {α : Type*} (lines : List (List α)) :
    (lines ++ [[]]).flatten = lines.flatten := by
  rw [List.flatten_append, List.flatten_singleton, List.append_nil]

theorem lineText_nil (e : MimeDecEntity) : lineText e [] = [] := by
  rw [lineText]
  split_ifs <;> rfl

theorem InBody.blank (h : InBody R node rest foundChild d lines s) :
    InBody R node rest foundChild d (lines ++ [[]]) s := by
  refine { h with filled := ?_ }
  have hfilled := h.filled
  rw [BodyFilled] at hfilled ⊢
  rw [flatten_concat_nil, List.flatMap_append, List.flatMap_singleton, lineText_nil,
    List.append_nil]
  exact hfilled

theorem InBody.currentBoundary (h : InBody R node rest foundChild d lines s) :
    currentBoundary s = (node :: rest).findSome? (·.bdef) := by
  have hflag : s.stateFlag ≠ .bodyEndBound := by
    rcases h.flag with hflag | hflag <;> rw [hflag] <;> exact MimeStateFlag.noConfusion
  simp only [Mail.currentBoundary, h.stack]
  by_cases hbdef : node.bdef = none
  · rw [if_pos (Or.inr hbdef), List.findSome?_cons, hbdef]
  · rw [if_neg (not_or.2 ⟨hflag, hbdef⟩)]

theorem InBody.processMimeEntity (h : InBody R node rest foundChild d lines s) (line : List UInt8) :
    processMimeEntity R.callbacks s line = processMimeBody R.callbacks s line := by
  have hheaders : ¬(s.stateFlag = .headerReady ∨ s.stateFlag = .headerStarted) := by
    rcases h.flag with hflag | hflag <;> rw [hflag] <;> decide
  have htop : s.stack ≠ [] := h.stack ▸ List.cons_ne_nil _ _
  rw [Mail.processMimeEntity, if_neg fun hlong => htop hlong.2, if_neg hheaders]

theorem InBody.parseLine (h : InBody R node rest foundChild d lines s) {line : List UInt8}
    (hline : IsBodyLine ((node :: rest).findSome? (·.bdef)) line)
    (hlength : ∀ b, (node :: rest).findSome? (·.bdef) = some b → b.length + 2 ≤ boundaryBuf) :
    ∃ s', mimeDecParseLine R.callbacks s line = some s' ∧
      InBody R node rest foundChild d (lines ++ [line]) s' := by
  have htop : s.stack ≠ [] := h.stack ▸ List.cons_ne_nil _ _
  by_cases hempty : line = []
  · subst hempty
    exact ⟨s, parseLine_ok (by rw [h.processMimeEntity, processMimeBody, if_pos rfl]), h.blank⟩
  obtain ⟨r, line', hr, hframe, hfilled, hroom, hret, hwhole⟩ :=
    processBodyLine_filled (s := { s with stateFlag := .bodyStarted })
      (by rw [TopIs, h.stack]; rfl) h.filled h.room line
  obtain rfl := hwhole hline.1
  obtain ⟨s', ret⟩ := r
  obtain rfl : ret = .ok := R.body_returns hret
  have hbody : processMimeBody R.callbacks s line' = some (s', .ok) := by
    rw [processMimeBody, if_neg hempty, if_neg htop, h.currentBoundary]
    cases hbdef : (node :: rest).findSome? (·.bdef) with
    | none => exact hr
    | some b =>
      have hno := hline.2 b hbdef
      have hfits : ¬boundaryBuf < b.length + 2 := Nat.not_lt.2 (hlength b hbdef)
      by_cases hdashes : line'.take 2 = bytesOf "--"
      · have hother : ¬(findBuffer line' (boundaryLine b)).isSome = true := fun hsome =>
          hno ⟨hdashes, hsome⟩
        simp only [if_pos hdashes, if_neg hfits, if_neg hother, hr]
      · simp only [if_neg hdashes, hr]
  refine ⟨s', parseLine_ok (by rw [h.processMimeEntity, hbody]), ?_⟩
  obtain ⟨hname, hvalue, hflag, hfound⟩ := hframe.fields
  exact {
    stack := hframe.stack.trans h.stack
    hname := hname.trans h.hname
    hvalue := hvalue.trans h.hvalue
    flag := .inr hflag
    foundChild := hfound.trans h.foundChild
    room := hroom
    filled := hfilled }

theorem InBody.parseLines (h : InBody R node rest foundChild d lines s) {more : List (List UInt8)}
    (hmore : ∀ line ∈ more, IsBodyLine ((node :: rest).findSome? (·.bdef)) line)
    (hlength : ∀ b, (node :: rest).findSome? (·.bdef) = some b → b.length + 2 ≤ boundaryBuf) :
    ∃ s', mimeDecParseLines R.callbacks s more = some s' ∧
      InBody R node rest foundChild d (lines ++ more) s' := by
  induction more generalizing s lines with
  | nil => exact ⟨s, rfl, by rwa [List.append_nil]⟩
  | cons line more ih =>
    obtain ⟨s₁, hline, h₁⟩ := h.parseLine (hmore line List.mem_cons_self) hlength
    obtain ⟨s', hrest, h'⟩ := ih h₁ fun line hline => hmore line (List.mem_cons_of_mem _ hline)
    refine ⟨s', ?_, ?_⟩
    · rw [parseLines_cons, hline]
      exact hrest
    · rwa [List.append_assoc, List.singleton_append] at h'

def paused (stack : List MimeDecStackNode) (flag : MimeStateFlag) (foundChild : Bool) (d : σ) :
    MimeDecParseState σ :=
  ⟨stack, none, [], [], [], flag, foundChild, false, false, d⟩

theorem MimeBody.Fits.whole {body : MimeBody} (h : body.Fits e) : Whole e body.lines := by
  intro hbase64
  cases body with
  | base64 bytes lines =>
    change 4 ∣ lines.flatten.length
    rw [h.2]
    exact length_encode bytes
  | quoted lines => exact absurd (h.1.symm.trans hbase64) Bool.false_ne_true
  | plain lines => exact absurd (h.1.symm.trans hbase64) Bool.false_ne_true

theorem MimeBody.Fits.content {body : MimeBody} (h : body.Fits e) {out : List UInt8}
    (hout : BodyText e body.lines out) : out = body.content := by
  rw [BodyText] at hout
  cases body with
  | base64 bytes lines =>
    rw [if_pos h.1] at hout
    change Blocks lines.flatten out at hout
    rw [h.2] at hout
    exact hout.of_encode
  | quoted lines =>
    rw [if_neg (by rw [h.1]; exact Bool.false_ne_true)] at hout
    rw [hout]
    change (lines.map QPLine.text).flatMap (lineText e) = lines.flatMap QPLine.content
    rw [List.flatMap_map]
    refine List.flatMap_congr fun line hline => ?_
    rw [lineText, if_pos h.2.1, qpText_line (h.2.2 line hline) le_rfl]
  | plain lines =>
    rw [if_neg (by rw [h.1]; exact Bool.false_ne_true)] at hout
    rw [hout]
    refine List.flatMap_congr fun line hline => ?_
    rw [lineText, if_neg (by rw [h.2]; exact Bool.false_ne_true)]

theorem InBody.complete (h : InBody R node rest foundChild d lines s)
    (hwhole : Whole node.data lines) :
    ∃ out, BodyText node.data lines out ∧ processBodyComplete R.callbacks s =
      some (paused (node :: rest) s.stateFlag foundChild (R.receive node.data out d), .ok) := by
  obtain ⟨hnil, out, htext, -, handed, rfl, hholds⟩ := h.filled.bodyText hwhole
  refine ⟨_, htext, ?_⟩
  rw [processBodyComplete_whole h.stack hnil, R.body_end hholds, Option.map_some]
  simp only [paused, ← h.stack, h.hname, h.hvalue, hnil, h.foundChild]

structure Delimits (R : MimeReceiver σ) (rest : List MimeDecStackNode) (d : σ)
    (s : MimeDecParseState σ) : Prop where
  stack_ne : s.stack ≠ []
  flag : s.stateFlag ≠ .headerReady ∧ s.stateFlag ≠ .headerStarted
  current : currentBoundary s = rest.findSome? (·.bdef)
  settles : ∃ stack flag node,
    (if s.stateFlag ≠ .bodyEndBound then processBodyComplete R.callbacks s
      else some ({ s with stateFlag := .headerReady }, .ok)) =
        some (paused stack flag false d, .ok) ∧
    popEncap (paused stack flag false d) = some (paused (node :: rest) flag false d, .ok)
  completes : rest = [] → ∃ s', mimeDecParseComplete R.callbacks s = some (s', .ok) ∧ s'.data = d

theorem Delimits.processMimeEntity (h : Delimits R rest d s) (line : List UInt8) :
    processMimeEntity R.callbacks s line = processMimeBody R.callbacks s line := by
  rw [Mail.processMimeEntity, if_neg fun hlong => h.stack_ne hlong.2,
    if_neg (not_or.2 ⟨h.flag.1, h.flag.2⟩)]

theorem findBuffer_front (b tail : List UInt8) : (findBuffer (b ++ tail) b).isSome = true := by
  rw [findBuffer, List.find?_isSome]
  refine ⟨0, List.mem_range.2 ?_, ?_⟩
  · rw [List.length_append]
    omega
  · rw [List.drop_zero, List.take_left]
    exact decide_eq_true rfl

theorem take_boundaryLine (b tail : List UInt8) :
    (boundaryLine b ++ tail).take 2 = bytesOf "--" := by
  rw [boundaryLine, List.append_assoc]
  exact List.take_left' (by decide)

theorem drop_boundaryLine (b tail : List UInt8) :
    (boundaryLine b ++ tail).drop (b.length + 2) = tail := by
  refine List.drop_left' ?_
  rw [boundaryLine, List.length_append, Nat.add_comm]
  rfl

theorem processMimeBody_boundary {f : MimeCallbacks σ} {b tail : List UInt8} (hstack : s.stack ≠ [])
    (hcurrent : currentBoundary s = some b) (hlength : b.length + 2 ≤ boundaryBuf) :
    processMimeBody f s (boundaryLine b ++ tail) =
      processMimeBoundary f s (boundaryLine b ++ tail) b.length := by
  have hne : boundaryLine b ++ tail ≠ [] := by
    intro hnil
    have htake := take_boundaryLine b tail
    rw [hnil] at htake
    exact absurd htake (by decide)
  rw [processMimeBody, if_neg hne, if_neg hstack, hcurrent]
  simp only [if_pos (take_boundaryLine b tail), if_neg (Nat.not_lt.2 hlength),
    if_pos (findBuffer_front _ tail)]

theorem processMimeBoundary_settled {f : MimeCallbacks σ} {b : List UInt8} (tail : List UInt8)
    {stack : List MimeDecStackNode} {flag : MimeStateFlag}
    (hsettle : (if s.stateFlag ≠ .bodyEndBound then processBodyComplete f s
      else some ({ s with stateFlag := .headerReady }, .ok)) =
        some (paused stack flag foundChild d, .ok))
    (hpop : popEncap (paused stack flag foundChild d) =
      some (paused (node :: rest) flag foundChild d, .ok)) :
    processMimeBoundary f s (boundaryLine b ++ tail) b.length =
      if tail.take 2 = bytesOf "--" then
        match rest with
        | [] => some (paused [] flag foundChild d, .errData)
        | parent :: rest' =>
          if parent.isEncap ∧ parent.bdef ≠ none then
            if rest' = [] then some (paused [] flag foundChild d, .errData)
            else some (paused rest' .bodyEndBound foundChild d, .ok)
          else some (paused (parent :: rest') .bodyEndBound foundChild d, .ok)
      else if foundChild then some (fresh false (node :: rest) false d, .ok)
      else if rest = [] then some (paused (node :: rest) flag foundChild d, .errData)
      else some (fresh false rest false d, .ok) := by
  rw [processMimeBoundary, hsettle]
  simp only [Option.bind_eq_bind, Option.bind_some, ne_eq, not_true_eq_false, if_false, hpop,
    drop_boundaryLine]
  by_cases hend : tail.take 2 = bytesOf "--"
  · simp only [if_pos hend]
    cases rest with
    | nil => rfl
    | cons parent rest' =>
      by_cases hencap : parent.isEncap = true ∧ ¬parent.bdef = none
      · cases rest' <;> simp [paused, MimeDecParseState.popStack, hencap]
      · simp only [paused, MimeDecParseState.popStack, List.tail_cons, if_neg hencap]
  · simp only [if_neg hend]
    cases foundChild with
    | true => rfl
    | false => cases rest <;> rfl

theorem Delimits.opens {parent : MimeDecStackNode} (h : Delimits R (parent :: rest) d s)
    {b : List UInt8}
    (hbdef : parent.bdef = some b) (hlength : b.length + 2 ≤ boundaryBuf) :
    mimeDecParseLine R.callbacks s (boundaryLine b) =
      some (fresh false (parent :: rest) false d) := by
  obtain ⟨stack, flag, node, hsettle, hpop⟩ := h.settles
  have hcurrent : currentBoundary s = some b := by
    rw [h.current, List.findSome?_cons, hbdef]
  have hboundary := processMimeBoundary_settled (b := b) [] hsettle hpop
  rw [List.append_nil] at hboundary
  refine parseLine_ok ?_
  rw [h.processMimeEntity, ← List.append_nil (boundaryLine b),
    processMimeBody_boundary h.stack_ne hcurrent hlength, List.append_nil, hboundary]
  rfl

theorem Delimits.closes {parent : MimeDecStackNode} (h : Delimits R (parent :: rest) d s)
    {b : List UInt8}
    (hbdef : parent.bdef = some b) (hlength : b.length + 2 ≤ boundaryBuf)
    (hencap : parent.isEncap = true → rest ≠ []) :
    mimeDecParseLine R.callbacks s (lastBoundaryLine b) =
      some (paused (if parent.isEncap then rest else parent :: rest) .bodyEndBound false d) := by
  obtain ⟨stack, flag, node, hsettle, hpop⟩ := h.settles
  have hcurrent : currentBoundary s = some b := by
    rw [h.current, List.findSome?_cons, hbdef]
  have hbdef' : parent.bdef ≠ none := by
    rw [hbdef]
    exact Option.some_ne_none b
  have hdashes : (bytesOf "--").take 2 = bytesOf "--" := by decide
  refine parseLine_ok ?_
  rw [h.processMimeEntity, lastBoundaryLine, processMimeBody_boundary h.stack_ne hcurrent hlength,
    processMimeBoundary_settled _ hsettle hpop, if_pos hdashes]
  cases hkind : parent.isEncap with
  | true =>
    simp only [hkind, hbdef', hencap hkind, ne_eq, not_false_eq_true, and_self, if_true, if_false]
  | false => simp only [hkind, Bool.false_eq_true, false_and, if_false]

theorem InBody.opens (h : InBody R node rest true d lines s) (hsilent : node.data.Silent)
    (hwhole : Whole node.data lines) {b : List UInt8} (hbdef : node.bdef = some b)
    (hlength : b.length + 2 ≤ boundaryBuf) :
    mimeDecParseLine R.callbacks s (boundaryLine b) =
      some (fresh false (node :: rest) false d) := by
  obtain ⟨out, -, hcomplete⟩ := h.complete hwhole
  rw [R.receive_silent hsilent] at hcomplete
  have hflag : s.stateFlag ≠ .bodyEndBound := by
    rcases h.flag with hflag | hflag <;> rw [hflag] <;> exact MimeStateFlag.noConfusion
  have hsettle : (if s.stateFlag ≠ .bodyEndBound then processBodyComplete R.callbacks s
      else some ({ s with stateFlag := .headerReady }, .ok)) =
      some (paused (node :: rest) s.stateFlag true d, .ok) := by
    rw [if_pos hflag, hcomplete]
  have hpop : popEncap (paused (node :: rest) s.stateFlag true d) =
      some (paused (node :: rest) s.stateFlag true d, .ok) := by
    cases rest <;> simp [popEncap, paused, hbdef]
  have hcurrent : Mail.currentBoundary s = some b := by
    rw [h.currentBoundary, List.findSome?_cons, hbdef]
  have htop : s.stack ≠ [] := h.stack ▸ List.cons_ne_nil _ _
  have hboundary := processMimeBoundary_settled (b := b) [] hsettle hpop
  rw [List.append_nil] at hboundary
  refine parseLine_ok ?_
  rw [h.processMimeEntity, ← List.append_nil (boundaryLine b),
    processMimeBody_boundary htop hcurrent hlength, List.append_nil, hboundary]
  rfl

structure Closable (R : MimeReceiver σ) (stack : List MimeDecStackNode) (d : σ)
    (s : MimeDecParseState σ) : Prop where
  stack_eq : s.stack = stack
  hname : s.hname = none
  hvalue : s.hvalue = []
  flag : s.stateFlag = .headerDone ∨ s.stateFlag = .bodyStarted
  complete : processBodyComplete R.callbacks s = some (paused stack s.stateFlag false d, .ok)

theorem InBody.closable {body : MimeBody} (h : InBody R node rest false d body.lines s)
    (hfits : body.Fits node.data) :
      Closable R (node :: rest) (R.receive node.data body.content d) s := by
  obtain ⟨out, hout, hcomplete⟩ := h.complete hfits.whole
  obtain rfl := hfits.content hout
  exact ⟨h.stack, h.hname, h.hvalue, h.flag, hcomplete⟩

theorem Closable.settles {stack : List MimeDecStackNode} (h : Closable R stack d s) :
    (if s.stateFlag ≠ .bodyEndBound then processBodyComplete R.callbacks s
      else some ({ s with stateFlag := .headerReady }, .ok)) =
        some (paused stack s.stateFlag false d, .ok) := by
  have hflag : s.stateFlag ≠ .bodyEndBound := by
    rcases h.flag with hflag | hflag <;> rw [hflag] <;> exact MimeStateFlag.noConfusion
  exact (if_pos hflag).trans h.complete

theorem Closable.flag_ne {stack : List MimeDecStackNode} (h : Closable R stack d s) :
    s.stateFlag ≠ .headerReady ∧ s.stateFlag ≠ .headerStarted := by
  rcases h.flag with hflag | hflag <;> rw [hflag] <;> decide

theorem Closable.currentBoundary (h : Closable R (node :: rest) d s) (hbdef : node.bdef = none) :
    currentBoundary s = rest.findSome? (·.bdef) := by
  simp only [Mail.currentBoundary, h.stack_eq, hbdef, or_true, if_true]

theorem storeMimeHeader_nothing {f : MimeCallbacks σ} (hname : s.hname = none)
    (hvalue : s.hvalue = []) :
    storeMimeHeader f s = some (s, .ok) := by
  rw [storeMimeHeader, if_pos hvalue, ← hname]

theorem parseComplete_settled {f : MimeCallbacks σ} {flag : MimeStateFlag} (hname : s.hname = none)
    (hvalue : s.hvalue = [])
    (hcomplete : processBodyComplete f s = some (paused (node :: rest) flag false d, .ok))
    (hlast : node.isEncap = true → rest ≠ []) :
    ∃ s', mimeDecParseComplete f s = some (s', .ok) ∧ s'.data = d := by
  have hstack : (if node.isEncap = true then rest else node :: rest) ≠ [] := by
    cases hkind : node.isEncap with
    | true => exact hlast hkind
    | false => exact List.cons_ne_nil _ _
  refine ⟨paused (if node.isEncap then rest else node :: rest) .parseDone false d, ?_, rfl⟩
  rw [mimeDecParseComplete, storeMimeHeader_nothing hname hvalue]
  simp only [Option.bind_eq_bind, Option.bind_some, ne_eq, not_true_eq_false, if_false, hcomplete,
    paused,
    MimeDecParseState.popStack, List.tail_cons]
  cases hkind : node.isEncap with
  | true => simp only [if_true, if_neg (hlast hkind)]
  | false => simp only [Bool.false_eq_true, if_false, List.cons_ne_nil]

theorem Closable.delimits (h : Closable R (node :: rest) d s) (hencap : node.isEncap = false)
    (hbdef : node.bdef = none) : Delimits R rest d s where
  stack_ne := h.stack_eq ▸ List.cons_ne_nil _ _
  flag := h.flag_ne
  current := h.currentBoundary hbdef
  settles := by
    refine ⟨_, _, node, h.settles, ?_⟩
    cases rest <;> simp [popEncap, paused, hencap]
  completes := fun _ => parseComplete_settled h.hname h.hvalue h.complete fun hkind =>
    (Bool.false_ne_true (hencap.symm.trans hkind)).elim

theorem Closable.delimits_message {inner : MimeDecStackNode}
    (h : Closable R (inner :: node :: rest) d s)
    (hinner : inner.isEncap = true) (hbdef : inner.bdef = none) (hbdef' : node.bdef = none) :
    Delimits R rest d s where
  stack_ne := h.stack_eq ▸ List.cons_ne_nil _ _
  flag := h.flag_ne
  current := by rw [h.currentBoundary hbdef, List.findSome?_cons, hbdef']
  settles := ⟨_, _, node, h.settles, by
    simp only [popEncap, paused, hinner, hbdef, hbdef', and_self, if_true]
    rfl⟩
  completes := fun _ =>
    parseComplete_settled h.hname h.hvalue h.complete fun _ => List.cons_ne_nil node rest

theorem delimits_paused (hencap : node.isEncap = false) (hsilent : rest = [] → node.data.Silent) :
    Delimits R rest d (paused (node :: rest) .bodyEndBound false d) where
  stack_ne := List.cons_ne_nil _ _
  flag := ⟨MimeStateFlag.noConfusion, MimeStateFlag.noConfusion⟩
  current := by simp only [Mail.currentBoundary, paused, true_or, if_true]
  settles := by
    refine ⟨node :: rest, .headerReady, node, rfl, ?_⟩
    cases rest <;> simp [popEncap, paused, hencap]
  completes := fun hrest => by
    have hcomplete : processBodyComplete R.callbacks (paused (node :: rest) .bodyEndBound false d) =
        some (paused (node :: rest) .bodyEndBound false d, .ok) := by
      rw [processBodyComplete_whole rfl rfl, R.silent (hsilent hrest)]
      rfl
    exact parseComplete_settled rfl rfl hcomplete fun hkind =>
      (Bool.false_ne_true (hencap.symm.trans hkind)).elim

theorem parseLines_blanks {f : MimeCallbacks σ} (stack : List MimeDecStackNode)
    (hstack : stack ≠ []) (d : σ)
    (n : ℕ) : mimeDecParseLines f (paused stack .bodyEndBound false d) (List.replicate n []) =
      some (paused stack .bodyEndBound false d) := by
  induction n with
  | zero => rfl
  | succ n ih =>
    have hline : mimeDecParseLine f (paused stack .bodyEndBound false d) [] =
        some (paused stack .bodyEndBound false d) := by
      refine parseLine_ok ?_
      rw [Mail.processMimeEntity, if_neg fun hlong => hstack hlong.2]
      rfl
    rw [List.replicate_succ, parseLines_cons, hline, Option.bind_some, ih]

inductive PartEnd (R : MimeReceiver σ) (rest : List MimeDecStackNode) (d : σ) :
    Bool → MimeDecParseState σ → Prop
  | delimits {s : MimeDecParseState σ} : Delimits R rest d s → PartEnd R rest d false s
  | leaf {s : MimeDecParseState σ} {node : MimeDecStackNode} : Closable R (node :: rest) d s →
      node.isEncap = true → node.bdef = none → PartEnd R rest d true s
  | parts : PartEnd R rest d true (paused rest .bodyEndBound false d)

theorem PartEnd.message (h : PartEnd R (node :: rest) d true s) (hencap : node.isEncap = false)
    (hbdef : node.bdef = none) (hsilent : rest = [] → node.data.Silent) : Delimits R rest d s := by
  cases h with
  | leaf hclosable hinner hnone => exact hclosable.delimits_message hinner hnone hbdef
  | parts => exact delimits_paused hencap hsilent

def PartParsed (R : MimeReceiver σ) (part : MimePart) : Prop :=
  ∀ (isEncap : Bool) (rest : List MimeDecStackNode) (begun : Bool) (d : σ),
    part.Valid isEncap (rest.findSome? (·.bdef)) →
    (∀ b, rest.findSome? (·.bdef) = some b → b.length + 2 ≤ boundaryBuf) →
    (isEncap = true → rest ≠ []) →
    ∃ s, mimeDecParseLines R.callbacks (fresh isEncap rest begun d) part.lines = some s ∧
      PartEnd R rest (part.received R d) isEncap s

theorem leaf_parsed (headers : List MimeHeader) (body : MimeBody) :
    PartParsed R (.leaf headers body) := by
  intro isEncap rest begun d hvalid hlength hencap
  obtain ⟨hheaders, hboundary, hmessage, hfits, hlines⟩ := hvalid
  obtain ⟨s, hs, hbody⟩ :=
    (InBody.start (R := R) ⟨(entityOf headers).describe, none, isEncap⟩ rest false
    (receiveHeaders R headers d)).parseLines hlines hlength
  have hclosable := InBody.closable hbody hfits
  refine ⟨s, ?_, ?_⟩
  · rw [MimePart.lines, parseLines_append,
      parseLines_fresh hheaders (headersDone_leaf hboundary hmessage), Option.bind_some, hs]
  · cases isEncap with
    | true => exact .leaf hclosable rfl rfl
    | false => exact .delimits (hclosable.delimits rfl rfl)

theorem message_parsed (headers : List MimeHeader) {inner : MimePart}
    (hinner : PartParsed R inner) :
    PartParsed R (.message headers inner) := by
  intro isEncap rest begun d hvalid hlength hencap
  obtain ⟨rfl, hheaders, hboundary, hmessage, hsilent, hvalid⟩ := hvalid
  obtain ⟨s, hs, hend⟩ := hinner true (⟨(entityOf headers).describe, none, false⟩ :: rest) true
    (receiveHeaders R headers d) hvalid hlength fun _ => List.cons_ne_nil _ _
  refine ⟨s, ?_, .delimits (hend.message rfl rfl fun hrest => hsilent (by rw [hrest]; rfl))⟩
  rw [MimePart.lines, parseLines_append,
    parseLines_fresh hheaders (headersDone_message hboundary hmessage), Option.bind_some, hs]

def PartsParsed (R : MimeReceiver σ) (parts : MimeParts) : Prop :=
  ∀ {parent : MimeDecStackNode} {rest : List MimeDecStackNode} {b : List UInt8} {d : σ}
    {s : MimeDecParseState σ}, parts.Valid b → parent.bdef = some b → b.length + 2 ≤ boundaryBuf →
    Delimits R (parent :: rest) d s →
    ∃ s', mimeDecParseLines R.callbacks s (parts.lines b) = some s' ∧
      Delimits R (parent :: rest) (parts.received R d) s'

theorem part_delimits {part : MimePart} (hpart : PartParsed R part) {parent : MimeDecStackNode}
    (rest : List MimeDecStackNode) (d : σ) {b : List UInt8} (hvalid : part.Valid false (some b))
    (hbdef : parent.bdef = some b) (hlength : b.length + 2 ≤ boundaryBuf) :
    ∃ s',
      mimeDecParseLines R.callbacks (fresh false (parent :: rest) false d) part.lines = some s' ∧
      Delimits R (parent :: rest) (part.received R d) s' := by
  have hfind : (parent :: rest).findSome? (·.bdef) = some b := by rw [List.findSome?_cons, hbdef]
  obtain ⟨s', hs', hend⟩ := hpart false (parent :: rest) false d (hfind ▸ hvalid)
    (fun b' hb' => by rw [hfind] at hb'; exact Option.some.inj hb' ▸ hlength) fun h =>
      (Bool.false_ne_true h).elim
  cases hend with
  | delimits h => exact ⟨s', hs', h⟩

theorem parts_parsed_nil : PartsParsed R .nil := by
  intro parent rest b d s hvalid hbdef hlength h
  exact ⟨s, rfl, h⟩

theorem parts_parsed_cons {part : MimePart} {more : MimeParts} (hpart : PartParsed R part)
    (hmore : PartsParsed R more) : PartsParsed R (.cons part more) := by
  intro parent rest b d s hvalid hbdef hlength h
  obtain ⟨s₁, hs₁, h₁⟩ := part_delimits hpart rest d hvalid.1 hbdef hlength
  obtain ⟨s', hs', h'⟩ := hmore hvalid.2 hbdef hlength h₁
  refine ⟨s', ?_, h'⟩
  rw [MimeParts.lines, parseLines_append, parseLines_cons, h.opens hbdef hlength, Option.bind_some,
    hs₁,
    Option.bind_some, hs']

theorem multipart_parsed (headers : List MimeHeader) (b : List UInt8) (preamble : List (List UInt8))
    {first : MimePart} {more : MimeParts} (blanks : ℕ) (hfirst : PartParsed R first)
    (hmore : PartsParsed R more) :
      PartParsed R (.multipart headers b preamble first more blanks) := by
  intro isEncap rest begun d hvalid _ hencap
  obtain ⟨hheaders, hboundary, hlength, hmessage, hsilent, hbase64, hpreamble, hvalid, hvalids⟩ :=
    hvalid
  obtain ⟨node, hnode⟩ : ∃ node : MimeDecStackNode,
      node = ⟨(entityOf headers).describe, some b, isEncap⟩ :=
    ⟨_, rfl⟩
  have hbdef : node.bdef = some b := by rw [hnode]
  have hfind : (node :: rest).findSome? (·.bdef) = some b := by rw [List.findSome?_cons, hbdef]
  obtain ⟨s₁, hs₁, h₁⟩ :=
    (InBody.start (R := R) node rest true (receiveHeaders R headers d)).parseLines
    (hfind ▸ hpreamble) fun b' hb' => by rw [hfind] at hb'; exact Option.some.inj hb' ▸ hlength
  have hwhole : Whole node.data ([] ++ preamble) := fun hkind => by
    rw [hnode] at hkind
    exact (Bool.false_ne_true (hbase64.symm.trans hkind)).elim
  have hopens := h₁.opens (hnode ▸ hsilent) hwhole hbdef hlength
  obtain ⟨s₂, hs₂, h₂⟩ :=
    part_delimits hfirst rest (receiveHeaders R headers d) hvalid hbdef hlength
  obtain ⟨s₃, hs₃, h₃⟩ := hmore hvalids hbdef hlength h₂
  have hkind : node.isEncap = isEncap := by rw [hnode]
  have hcloses := h₃.closes hbdef hlength (hkind ▸ hencap)
  have hstack : (if node.isEncap then rest else node :: rest) ≠ [] := by
    rw [hkind]
    cases isEncap with
    | true => exact hencap rfl
    | false => exact List.cons_ne_nil _ _
  refine ⟨paused (if node.isEncap then rest else node :: rest) .bodyEndBound false
    ((MimePart.multipart headers b preamble first more blanks).received R d), ?_, ?_⟩
  · rw [MimePart.lines, MimePart.received, parseLines_append,
      parseLines_fresh hheaders (headersDone_multipart hboundary hlength hmessage),
        Option.bind_some,
      parseLines_append, ← hnode, hs₁, Option.bind_some, parseLines_append, parseLines_cons, hopens,
      Option.bind_some, hs₂, Option.bind_some, parseLines_append, hs₃, Option.bind_some,
        parseLines_cons, hcloses,
      Option.bind_some, parseLines_blanks _ hstack]
  · rw [hkind]
    cases isEncap with
    | true => exact .parts
    | false => exact .delimits (delimits_paused hkind fun _ => hnode ▸ hsilent)

mutual

theorem part_parsed (R : MimeReceiver σ) : (part : MimePart) → PartParsed R part
  | .leaf headers body => leaf_parsed headers body
  | .multipart headers b preamble first more blanks =>
    multipart_parsed headers b preamble blanks (part_parsed R first) (parts_parsed R more)
  | .message headers inner => message_parsed headers (part_parsed R inner)

theorem parts_parsed (R : MimeReceiver σ) : (parts : MimeParts) → PartsParsed R parts
  | .nil => parts_parsed_nil
  | .cons part more => parts_parsed_cons (part_parsed R part) (parts_parsed R more)

end

theorem mime_received {part : MimePart} (hvalid : part.Valid false none) (d : σ) :
    ∃ s s', mimeDecParseLines R.callbacks (mimeDecInit d) part.lines = some s ∧
      mimeDecParseComplete R.callbacks s = some (s', .ok) ∧ s'.data = part.received R d := by
  have hlength : ∀ b : List UInt8, ([] : List MimeDecStackNode).findSome? (·.bdef) = some b →
      b.length + 2 ≤ boundaryBuf := fun b hb => (Option.some_ne_none b hb.symm).elim
  obtain ⟨s, hs, hend⟩ := part_parsed R part false [] false d hvalid hlength fun h =>
    (Bool.false_ne_true h).elim
  cases hend with
  | delimits h =>
    obtain ⟨s', hs', hdata⟩ := h.completes rfl
    exact ⟨s, s', hs, hs', hdata⟩

end CloudHands.Mail

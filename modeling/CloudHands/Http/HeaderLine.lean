import CloudHands.Http.RequestLine

/-!
# Header lines and status lines

What `ch_http_header_line_parse` and `ch_http_status_line_parse` take out of the lines that they
are meant for. A name that begins like `HTTP/` makes the parser skip the line.
-/

namespace CloudHands.Http

structure FieldText where
  name : List UInt8
  blanks : ℕ
  value : List UInt8
  lineEnd : LineEnd

/-- What `ch_http_session_header_add` does with the two texts of a header line. -/
def addField (s : HttpSession) (dir : Dir) (key val : List UInt8) : HttpSession :=
  let h := s.headers dir
  let s := s.setHeaders (headerIndexSet { h with headers := (key, val) :: h.headers } key val) dir
  match dir with
  | .request => requestHeaderIndexSet s key val
  | .response => s

theorem headerAdd_eq (s : HttpSession) (raw : List UInt8) (header : HeaderLine) (dir : Dir) :
    headerAdd s raw header dir =
      addField s dir (strndup raw header.headerNameStart header.headerNameEnd 0)
        (strndup raw header.headerStart header.headerEnd 0) := rfl

namespace FieldText

def wire (f : FieldText) : List UInt8 :=
  f.name ++ bytesOf ":" ++ List.replicate f.blanks blank ++ f.value ++ f.lineEnd.wire

structure Valid (f : FieldText) : Prop where
  name_ne_nil : f.name ≠ []
  name : ∀ b ∈ f.name, UriByte b
  colon : ∀ b ∈ f.name.tail, chr b ≠ ':'
  value : ∀ b ∈ f.value, UriByte b
  value_head : f.value.head? ≠ some blank
  value_last : f.value.getLast? ≠ some blank

def Plain (f : FieldText) : Prop := ¬ bytesOf "HTTP/" <+: f.name

end FieldText

section Field

variable {raw : List UInt8} {p : ℕ} {h : HeaderLine}

theorem headerStep_start {b : UInt8} (hb : UriByte b) :
    headerStep raw p b .start h = .next .name { h with headerNameStart := some p } := by
  rw [headerStep]
  split
  case h_1 hchr => exact absurd (chr_injective hchr) hb.2.1
  case h_2 hchr => exact absurd (chr_injective hchr) hb.2.2
  case h_3 hchr => exact absurd (chr_injective hchr) hb.1
  case h_4 => rfl

/-- The slash behind `HTTP` at the front of a line. -/
def AtSlash (raw : List UInt8) (p : ℕ) (b : UInt8) : Prop :=
  chr b = '/' ∧ p = 4 ∧ raw.take 4 = bytesOf "HTTP"

theorem headerStep_name {b : UInt8} (hb : UriByte b) (hcolon : chr b ≠ ':')
    (hslash : ¬ AtSlash raw p b)
    (hstart : h.headerNameStart = some 0) : headerStep raw p b .name h = .next .name h := by
  have hnot : ¬ (chr b = '/' ∧ p - h.headerNameStart.getD 0 = 4 ∧
      (raw.drop (h.headerNameStart.getD 0)).take 4 = bytesOf "HTTP") := by
    rw [hstart]
    exact hslash
  rw [headerStep, if_neg hcolon, if_neg hb.2.1, if_neg hb.2.2, if_neg hnot, if_neg hb.1]

theorem walks_name {w : List UInt8} (hw : ∀ b ∈ w, UriByte b) (hcolon : ∀ b ∈ w, chr b ≠ ':')
    (hslash : ∀ i, (hi : i < w.length) → ¬ AtSlash raw (p + i) w[i])
    (hstart : h.headerNameStart = some 0) :
    Walks (headerStep raw) p .name h w .name h := by
  induction w generalizing p with
  | nil => exact .nil
  | cons b w ih =>
    obtain ⟨hb, hw⟩ := List.forall_mem_cons.1 hw
    obtain ⟨hbcolon, hcolon⟩ := List.forall_mem_cons.1 hcolon
    have hfirst : ¬ AtSlash raw p b := hslash 0 (Nat.zero_lt_succ _)
    refine .cons (headerStep_name hb hbcolon hfirst hstart) (ih hw hcolon fun i hi => ?_)
    have hrest := hslash (i + 1) (Nat.succ_lt_succ hi)
    rwa [← Nat.add_assoc, Nat.add_right_comm] at hrest

theorem walks_beforeValue (blanks : ℕ) :
    Walks (headerStep raw) p .spaceBeforeValue h (List.replicate blanks blank)
      .spaceBeforeValue h :=
  .stays fun p b hb => by
    rw [List.eq_of_mem_replicate hb]
    rfl

def ValueAfter (b : UInt8) (state : HeaderState) : Prop :=
  state = if b = blank then .spaceAfterValue else .value

theorem headerStep_value (raw : List UInt8) (p : ℕ) (h : HeaderLine) {b : UInt8}
    {state : HeaderState}
    (hstate : state = .value ∨ state = .spaceAfterValue) (hb : UriByte b) :
    ∃ state' headerEnd,
      headerStep raw p b state h = .next state' { h with headerEnd := headerEnd } ∧
      ValueAfter b state' := by
  by_cases hblank : b = blank
  · subst hblank
    rcases hstate with rfl | rfl
    · exact ⟨.spaceAfterValue, some p, rfl, rfl⟩
    · exact ⟨.spaceAfterValue, h.headerEnd, rfl, rfl⟩
  · refine ⟨.value, h.headerEnd, ?_, (if_neg hblank).symm⟩
    rcases hstate with rfl | rfl
    all_goals
      rw [headerStep]
      split
      case h_1 hchr => exact absurd (chr_injective hchr) hblank
      case h_2 hchr => exact absurd (chr_injective hchr) hb.2.1
      case h_3 hchr => exact absurd (chr_injective hchr) hb.2.2
      case h_4 hchr => exact absurd (chr_injective hchr) hb.1
      case h_5 => rfl

theorem headerStep_beforeValue (raw : List UInt8) (p : ℕ) (h : HeaderLine) {b : UInt8}
    (hb : UriByte b) (hblank : b ≠ blank) :
    headerStep raw p b .spaceBeforeValue h = .next .value { h with headerStart := some p } := by
  rw [headerStep]
  split
  case h_1 hchr => exact absurd (chr_injective hchr) hblank
  case h_2 hchr => exact absurd (chr_injective hchr) hb.2.1
  case h_3 hchr => exact absurd (chr_injective hchr) hb.2.2
  case h_4 hchr => exact absurd (chr_injective hchr) hb.1
  case h_5 => rfl

theorem ValueAfter.cases {b : UInt8} {state : HeaderState} (h : ValueAfter b state) :
    state = .value ∨ state = .spaceAfterValue := by
  rw [h]
  split
  · exact .inr rfl
  · exact .inl rfl

theorem walks_value (raw : List UInt8) (p : ℕ) (h : HeaderLine) {w : List UInt8} {b : UInt8}
    {state : HeaderState} (hstate : ValueAfter b state)
    (hw : ∀ c ∈ w, UriByte c) :
    ∃ state' headerEnd,
      Walks (headerStep raw) p state h w state' { h with headerEnd := headerEnd } ∧
      ValueAfter ((b :: w).getLast (List.cons_ne_nil _ _)) state' := by
  induction w generalizing b state p h with
  | nil => exact ⟨state, h.headerEnd, .nil, hstate⟩
  | cons c w ih =>
    obtain ⟨hc, hw⟩ := List.forall_mem_cons.1 hw
    obtain ⟨state₁, headerEnd₁, hstep, hstate₁⟩ := headerStep_value raw p h hstate.cases hc
    obtain ⟨state₂, headerEnd₂, hwalk, hlast⟩ :=
      ih (p := p + 1) (h := { h with headerEnd := headerEnd₁ })
      hstate₁ hw
    exact ⟨state₂, headerEnd₂, .cons hstep hwalk, hlast⟩

theorem scan_valueEnd (e : LineEnd) :
    scan (headerStep raw) p .value h (e.wire ++ [LF]) = some { h with headerEnd := some p } := by
  obtain ⟨blanks, cr⟩ := e
  cases blanks with
  | zero => cases cr <;> rfl
  | succ blanks =>
    have hfirst : headerStep raw p blank .value h =
        .next .spaceAfterValue { h with headerEnd := some p } := rfl
    have hwalk :
        Walks (headerStep raw) p .value h (List.replicate (blanks + 1) blank) .spaceAfterValue
        { h with headerEnd := some p } := by
      rw [List.replicate_succ]
      refine .cons hfirst (.stays fun p b hb => ?_)
      rw [List.eq_of_mem_replicate hb]
      rfl
    rw [LineEnd.wire, List.append_assoc, hwalk]
    cases cr <;> rfl

theorem scan_value {c : UInt8} {v : List UInt8} (hv : ∀ b ∈ c :: v, UriByte b) (hc : c ≠ blank)
    (hlast : (c :: v).getLast? ≠ some blank) (e : LineEnd) :
    scan (headerStep raw) p .spaceBeforeValue h (c :: v ++ (e.wire ++ [LF])) =
      some { h with headerStart := some p, headerEnd := some (p + (c :: v).length) } := by
  obtain ⟨hbyte, hv⟩ := List.forall_mem_cons.1 hv
  have hstart : ValueAfter c .value := (if_neg hc).symm
  obtain ⟨state, headerEnd, hwalk, hafter⟩ := walks_value raw (p + 1)
    { h with headerStart := some p } hstart hv
  have hvalue : state = .value := by
    rw [hafter, if_neg]
    intro heq
    exact hlast (by rw [List.getLast?_eq_getLast_of_ne_nil (List.cons_ne_nil _ _), heq])
  have hall := Walks.cons (headerStep_beforeValue raw p h hbyte hc) hwalk
  rw [hall, hvalue, scan_valueEnd]

theorem scan_noValue (raw : List UInt8) (p : ℕ) (h : HeaderLine) (e : LineEnd) :
    ∃ q, scan (headerStep raw) p .spaceBeforeValue h (e.wire ++ [LF]) =
      some { h with headerStart := some q, headerEnd := some q } := by
  obtain ⟨blanks, cr⟩ := e
  rw [LineEnd.wire, List.append_assoc, walks_beforeValue]
  cases cr <;> exact ⟨_, rfl⟩

end Field

namespace FieldText

variable {f : FieldText} {dir : Dir}

def behind (f : FieldText) : List UInt8 :=
  List.replicate f.blanks blank ++ (f.value ++ (f.lineEnd.wire ++ [LF]))

theorem rawLine_wire (f : FieldText) : rawLine f.wire = f.name ++ ([58] ++ f.behind) := by
  have hcolon : bytesOf ":" = [58] := rfl
  simp only [rawLine, wire, behind, hcolon, List.append_assoc]

theorem not_atSlash (hplain : f.Plain) {b : UInt8} {w : List UInt8}
    (hname : f.name = b :: w) {i : ℕ}
    (hi : i < w.length) : ¬ AtSlash (rawLine f.wire) (1 + i) w[i] := by
  rintro ⟨hslash, hfour, htake⟩
  obtain rfl : i = 3 := by omega
  have hlen : 4 ≤ f.name.length := by
    rw [hname, List.length_cons]
    omega
  rw [rawLine_wire, List.take_append_of_le_length hlen] at htake
  refine hplain ⟨f.name.drop 5, ?_⟩
  have hfifth : f.name[4]? = some 47 := by
    rw [hname, List.getElem?_cons_succ, List.getElem?_eq_getElem hi]
    exact congrArg some (chr_injective (c := 47) hslash)
  have hfive : f.name.take 5 = bytesOf "HTTP/" := by
    rw [List.take_add_one, htake, hfifth]
    rfl
  rw [← hfive, List.take_append_drop]

theorem walks_toValue (hf : f.Valid) (hplain : f.Plain) :
    Walks (headerStep (rawLine f.wire)) 0 .start {} (f.name ++ [58] ++
      List.replicate f.blanks blank)
      .spaceBeforeValue { headerNameStart := some 0, headerNameEnd := some f.name.length } := by
  obtain ⟨b, w, hname⟩ := List.exists_cons_of_ne_nil hf.name_ne_nil
  have hbytes := hf.name
  have hcolon := hf.colon
  rw [hname] at hbytes hcolon
  obtain ⟨hb, hw⟩ := List.forall_mem_cons.1 hbytes
  have hslash := fun i (hi : i < w.length) => not_atSlash hplain hname hi
  have hall :
      Walks (headerStep (rawLine f.wire)) 0 .start {} (b :: w) .name
      { headerNameStart := some 0 } :=
    .cons (headerStep_start hb) (walks_name hw hcolon hslash rfl)
  rw [hname]
  have hend :
      headerStep (rawLine f.wire) (0 + (b :: w).length) 58 .name { headerNameStart := some 0 } =
      .next .spaceBeforeValue
        { headerNameStart := some 0, headerNameEnd := some (0 + (b :: w).length) } := rfl
  rw [Nat.zero_add] at hend
  exact (hall.trans (.one (by rwa [Nat.zero_add]))).trans (walks_beforeValue _)

theorem zero_notMem {w : List UInt8} (h : ∀ b ∈ w, UriByte b) : 0 ∉ w := fun hmem =>
  (h 0 hmem).1 rfl

theorem headerLineParse_wire (hf : f.Valid) (hplain : f.Plain) :
    ∃ header, headerLineParse (rawLine f.wire) = some header ∧
      strndup (rawLine f.wire) header.headerNameStart header.headerNameEnd 0 = f.name ∧
      strndup (rawLine f.wire) header.headerStart header.headerEnd 0 = f.value := by
  have hwalk := walks_toValue hf hplain
  have hname : strndup (rawLine f.wire) (some 0) (some f.name.length) 0 = f.name := by
    have hpart := strndup_part [] ([58] ++ f.behind) (zero_notMem hf.name)
    rwa [List.nil_append, List.length_nil, Nat.zero_add, ← rawLine_wire] at hpart
  have hscan : headerLineParse (rawLine f.wire) =
      scan (headerStep (rawLine f.wire))
        (0 + (f.name ++ [58] ++ List.replicate f.blanks blank).length)
        .spaceBeforeValue { headerNameStart := some 0, headerNameEnd := some f.name.length }
        (f.value ++ (f.lineEnd.wire ++ [LF])) := by
    rw [← hwalk, headerLineParse]
    congr 1
    simp only [rawLine_wire, behind, List.append_assoc]
  cases hvalue : f.value with
  | nil =>
    rw [hvalue, List.nil_append] at hscan
    obtain ⟨q, hend⟩ := scan_noValue (rawLine f.wire)
      (0 + (f.name ++ [58] ++ List.replicate f.blanks blank).length)
      { headerNameStart := some 0, headerNameEnd := some f.name.length } f.lineEnd
    refine ⟨_, hscan.trans hend, hname, ?_⟩
    rw [strndup, if_pos rfl]
  | cons c v =>
    have hbytes := hf.value
    rw [hvalue] at hbytes hscan
    have hcblank : c ≠ blank := by
      rintro rfl
      exact hf.value_head (by rw [hvalue, List.head?_cons])
    rw [scan_value hbytes hcblank (hvalue ▸ hf.value_last)] at hscan
    have hpart := strndup_part (f.name ++ [58] ++ List.replicate f.blanks blank)
      (f.lineEnd.wire ++ [LF]) (zero_notMem hbytes)
    have hraw :
        f.name ++ [58] ++ List.replicate f.blanks blank ++ (c :: v ++ (f.lineEnd.wire ++ [LF])) =
        rawLine f.wire := by
      simp only [rawLine_wire, behind, hvalue, List.append_assoc]
    rw [hraw] at hpart
    refine ⟨_, hscan, hname, ?_⟩
    simpa only [Nat.zero_add] using hpart

theorem lf_notMem_wire (hf : f.Valid) : LF ∉ f.wire := by
  intro hmem
  simp only [wire, List.mem_append, List.mem_replicate, or_assoc] at hmem
  rcases hmem with hmem | hmem | ⟨-, heq⟩ | hmem | hmem
  · exact (hf.name LF hmem).2.2 rfl
  · exact absurd hmem (by decide)
  · exact absurd heq (by decide)
  · exact (hf.value LF hmem).2.2 rfl
  · exact f.lineEnd.lf_notMem hmem

theorem headerLineParse_skipped (hf : f.Valid) (hskip : ¬ f.Plain) :
    headerLineParse (rawLine f.wire) = none := by
  obtain ⟨rest, hname⟩ := not_not.1 hskip
  have hwire :
      f.wire = bytesOf "HTTP/" ++ (rest ++ (bytesOf ":" ++ (List.replicate f.blanks blank ++
      (f.value ++ f.lineEnd.wire)))) := by
    rw [wire, ← hname]
    simp only [List.append_assoc]
  generalize hmore : rest ++ (bytesOf ":" ++ (List.replicate f.blanks blank ++
    (f.value ++ f.lineEnd.wire))) = more at hwire
  have hlf : LF ∉ more := fun hmem =>
    lf_notMem_wire hf (hwire ▸ List.mem_append_right _ hmem)
  have hslash : ∀ h : HeaderLine, h.headerNameStart = some 0 →
      headerStep (rawLine f.wire) 4 47 .name h = .next .ignoreLine h := by
    intro h hstart
    have hat : AtSlash (rawLine f.wire) 4 47 := by
      rw [hwire]
      exact ⟨rfl, rfl, rfl⟩
    rw [headerStep, if_neg (by decide), if_neg (by decide), if_neg (by decide), hstart]
    exact if_pos hat
  have hfront : Walks (headerStep (rawLine f.wire)) 0 .start {} (bytesOf "HTTP/") .ignoreLine
      { headerNameStart := some 0 } :=
    .cons rfl (.cons rfl (.cons rfl (.cons rfl (.one (hslash _ rfl)))))
  have hignore : ∀ p h, Walks (headerStep (rawLine f.wire)) p .ignoreLine h more .ignoreLine h :=
    fun p h => .stays fun p b hb => if_neg fun heq : b = LF => hlf (heq ▸ hb)
  rw [headerLineParse]
  conv_lhs => arg 5; rw [rawLine, hwire]
  rw [List.append_assoc, hfront, hignore]
  rfl

theorem lineLen_wire_ne_zero (hf : f.Valid) : lineLen (rawLine f.wire) ≠ 0 := by
  have hlen := List.length_pos_of_ne_nil hf.name_ne_nil
  have hlong : 2 ≤ f.wire.length := by
    have hcolon : (bytesOf ":").length = 1 := rfl
    simp only [wire, List.length_append]
    omega
  rw [lineLen, rawLine, List.length_append, List.length_singleton]
  split <;> omega

theorem readField_wire (hf : f.Valid) (hplain : f.Plain) (s : HttpSession) :
    readField dir s f.wire = some (addField s dir f.name f.value) := by
  have hline : ¬ (LF ∈ f.wire ∨ lineLen (rawLine f.wire) = 0) :=
    not_or.2 ⟨lf_notMem_wire hf, lineLen_wire_ne_zero hf⟩
  obtain ⟨header, hparse, hname, hvalue⟩ := headerLineParse_wire hf hplain
  rw [readField, if_neg hline, hparse, Option.map_some, headerAdd_eq, hname, hvalue]

theorem readFields_wire {fields : List FieldText} (hfields : ∀ f ∈ fields, f.Valid ∧ f.Plain)
    (s : HttpSession) :
    (fields.map wire).foldlM (readField dir) s =
      some (fields.foldl (fun s f => addField s dir f.name f.value) s) := by
  induction fields generalizing s with
  | nil => rfl
  | cons f fields ih =>
    obtain ⟨⟨hvalid, hplain⟩, hfields⟩ := List.forall_mem_cons.1 hfields
    rw [List.map_cons, List.foldlM_cons, readField_wire hvalid hplain]
    exact ih hfields _

/-- A header line is recorded as it stands exactly if its name does not begin like a status line. -/
theorem readField_iff (hf : f.Valid) (s : HttpSession) :
    readField dir s f.wire = some (addField s dir f.name f.value) ↔ f.Plain := by
  refine ⟨fun hread => ?_, fun hplain => readField_wire hf hplain s⟩
  have hline : ¬ (LF ∈ f.wire ∨ lineLen (rawLine f.wire) = 0) :=
    not_or.2 ⟨lf_notMem_wire hf, lineLen_wire_ne_zero hf⟩
  by_contra hskip
  rw [readField, if_neg hline, headerLineParse_skipped hf hskip] at hread
  cases hread

def hostField : FieldText where
  name := bytesOf "Host"
  blanks := 1
  value := bytesOf "a b"
  lineEnd := ⟨0, true⟩

theorem hostField_recorded :
    readField .request {} (bytesOf "Host: a b\r") =
      some (addField {} .request (bytesOf "Host") (bytesOf "a b")) := by
  have hvalid : hostField.Valid :=
    { name_ne_nil := by decide +kernel
      name := by unfold UriByte; decide +kernel
      colon := by decide +kernel
      value := by unfold UriByte; decide +kernel
      value_head := by decide +kernel
      value_last := by decide +kernel }
  have hplain : hostField.Plain := by unfold Plain; decide +kernel
  exact (readField_iff hvalid {}).2 hplain

end FieldText

structure StatusText where
  version : HttpVersion
  blanks : ℕ
  code : List UInt8
  reason : List UInt8
  cr : Bool

namespace StatusText

def wire (t : StatusText) : List UInt8 :=
  t.version.wire ++ List.replicate (t.blanks + 1) blank ++ t.code ++ t.reason ++
    if t.cr then [CR] else []

structure Valid (t : StatusText) : Prop where
  version : t.version.Valid
  code : t.code.length = 3 ∧ ∀ b ∈ t.code, isDigit b = true
  reason_head : t.reason = [] ∨ t.reason.head? = some blank ∨ t.reason.head? = some 46
  reason : ∀ b ∈ t.reason, b ≠ CR ∧ b ≠ LF

variable {t : StatusText} {p : ℕ} {status : StatusLine}

theorem scan_lineEnd (cr : Bool) :
    scan (fun _ => statusStep) p .statusText status ((if cr then [CR] else []) ++ [LF]) =
      some status := by
  cases cr <;> rfl

theorem walks_reason {reason : List UInt8} (hreason : ∀ b ∈ reason, b ≠ CR ∧ b ≠ LF) :
    Walks (fun _ => statusStep) p .statusText status reason .statusText status := by
  refine .stays fun p b hb => ?_
  rw [statusStep]
  split
  case h_1 hchr => exact absurd (chr_injective hchr) (hreason b hb).1
  case h_2 hchr => exact absurd (chr_injective hchr) (hreason b hb).2
  case h_3 => rfl

theorem scan_reason {reason : List UInt8} {cr : Bool}
    (hhead : reason = [] ∨ reason.head? = some blank ∨ reason.head? = some 46)
    (hreason : ∀ b ∈ reason, b ≠ CR ∧ b ≠ LF) :
    scan (fun _ =>
      statusStep) p .spaceAfterStatus status (reason ++ ((if cr then [CR] else []) ++ [LF])) =
      some status := by
  have htext : ∀ b, b = blank ∨ b = 46 → ∀ reason : List UInt8, (∀ b ∈ reason, b ≠ CR ∧ b ≠ LF) →
      scan (fun _ => statusStep) p .spaceAfterStatus status
        (b :: reason ++ ((if cr then [CR] else []) ++ [LF])) = some status := by
    intro b hb reason hreason
    have hfirst : statusStep b .spaceAfterStatus status = .next .statusText status := by
      rcases hb with rfl | rfl <;> rfl
    rw [Walks.cons hfirst (walks_reason hreason), scan_lineEnd]
  rcases hhead with rfl | hblank | hdot
  · cases cr <;> rfl
  · obtain ⟨reason, rfl⟩ := List.head?_eq_some_iff.1 hblank
    exact htext _ (.inl rfl) reason (List.forall_mem_cons.1 hreason).2
  · obtain ⟨reason, rfl⟩ := List.head?_eq_some_iff.1 hdot
    exact htext _ (.inr rfl) reason (List.forall_mem_cons.1 hreason).2

theorem walks_major {digits : List UInt8} (h : IsNumber digits) (hhead : digits.head? ≠ some 48) :
    Walks (fun _ => statusStep) p .firstMajorDigit status digits .majorDigit
      { status with httpMajor := number digits } := by
  obtain ⟨hne, hdigits, hsmall⟩ := h
  obtain ⟨b, digits, rfl⟩ := List.exists_cons_of_ne_nil hne
  obtain ⟨hb, hdigits⟩ := List.forall_mem_cons.1 hdigits
  have hzero : chr b ≠ '0' := fun heq =>
    hhead (congrArg some (chr_injective (heq : chr b = chr 48)))
  have hfirst : statusStep b .firstMajorDigit status =
      .next .majorDigit { status with httpMajor := digitValue b } := by
    simp [statusStep, hb, hzero]
  rw [number_cons] at hsmall ⊢
  refine .cons hfirst (Walks.digits (fun n => { status with httpMajor := n }) ?_ hsmall)
  intro p n c hc hn
  have hdigit := hdigits c hc
  have hdot : chr c ≠ '.' := chr_ne_of_isDigit (c := 46) hdigit rfl
  have hroom : ¬ n > 99 := by omega
  simp [statusStep, hdot, hdigit, hroom]

theorem walks_minor {digits : List UInt8} (h : IsNumber digits) :
    Walks (fun _ => statusStep) p .firstMinorDigit status digits .minorDigit
      { status with httpMinor := number digits } := by
  obtain ⟨hne, hdigits, hsmall⟩ := h
  obtain ⟨b, digits, rfl⟩ := List.exists_cons_of_ne_nil hne
  obtain ⟨hb, hdigits⟩ := List.forall_mem_cons.1 hdigits
  have hfirst : statusStep b .firstMinorDigit status =
      .next .minorDigit { status with httpMinor := digitValue b } := by
    simp [statusStep, hb]
  rw [number_cons] at hsmall ⊢
  refine .cons hfirst (Walks.digits (fun n => { status with httpMinor := n }) ?_ hsmall)
  intro p n c hc hn
  have hdigit := hdigits c hc
  have hspace : chr c ≠ ' ' := chr_ne_of_isDigit (c := 32) hdigit rfl
  have hroom : ¬ n > 99 := by omega
  simp [statusStep, hspace, hdigit, hroom]

theorem statusStep_digit (status : StatusLine) {b : UInt8} (hb : isDigit b = true) :
    statusStep b .status status =
      .next (if status.count + 1 = 3 then .spaceAfterStatus else .status)
      { status with code := status.code * 10 + digitValue b, count := status.count + 1 } := by
  have hspace : chr b ≠ ' ' := chr_ne_of_isDigit (c := 32) hb rfl
  have hnot : ¬ (!isDigit b) = true := by simp [hb]
  rw [statusStep, if_neg hspace, if_neg hnot]
  dsimp only
  split <;> rfl

theorem walks_code {code : List UInt8} (hlen : code.length = 3)
    (hcode : ∀ b ∈ code, isDigit b = true)
    (hcount : status.count = 0) (hzero : status.code = 0) :
    Walks (fun _ => statusStep) p .status status code .spaceAfterStatus
      { status with code := number code, count := 3 } := by
  obtain ⟨a, b, c, rfl⟩ := List.length_eq_three.1 hlen
  simp only [List.forall_mem_cons] at hcode
  obtain ⟨ha, hb, hc, -⟩ := hcode
  have hfirst := statusStep_digit status ha
  rw [hcount, hzero] at hfirst
  refine .cons hfirst (.cons (statusStep_digit _ hb) (.one ?_))
  exact (statusStep_digit _ hc).trans (by simp [number])

theorem statusLineParse_wire (ht : t.Valid) :
    ∃ status, statusLineParse (rawLine t.wire) = some status ∧ status.code = number t.code := by
  have hname : Walks (fun _ => statusStep) 0 .start {} (bytesOf "HTTP/") .firstMajorDigit {} :=
    .cons rfl (.cons rfl (.cons rfl (.cons rfl (.one rfl))))
  have hdot : ∀ p status,
      Walks (fun _ => statusStep) p .majorDigit status (bytesOf ".") .firstMinorDigit
      status := fun _ _ => .one rfl
  have hblanks : ∀ p status, Walks (fun _ => statusStep) p .minorDigit status
      (List.replicate (t.blanks + 1) blank) .status status := by
    intro p status
    rw [List.replicate_succ]
    have hfirst : statusStep blank .minorDigit status = .next .status status := rfl
    refine .cons hfirst (.stays fun p b hb => ?_)
    rw [List.eq_of_mem_replicate hb]
    rfl
  rw [statusLineParse, rawLine, wire, HttpVersion.wire]
  simp only [List.append_assoc]
  rw [hname, walks_major ht.version.major ht.version.major_head, hdot, walks_minor ht.version.minor,
    hblanks,
    walks_code ht.code.1 ht.code.2 rfl rfl, scan_reason ht.reason_head ht.reason]
  exact ⟨_, rfl, rfl⟩

theorem lf_notMem_wire (ht : t.Valid) : LF ∉ t.wire := by
  intro hmem
  simp only [wire, HttpVersion.wire, List.mem_append, List.mem_replicate, or_assoc] at hmem
  rcases hmem with hmem | hmem | hmem | hmem | ⟨-, heq⟩ | hmem | hmem | hmem
  · exact absurd hmem (by decide)
  · exact absurd (ht.version.major.2.1 LF hmem) (by decide)
  · exact absurd hmem (by decide)
  · exact absurd (ht.version.minor.2.1 LF hmem) (by decide)
  · exact absurd heq (by decide)
  · exact absurd (ht.code.2 LF hmem) (by decide)
  · exact (ht.reason LF hmem).2 rfl
  · cases hcr : t.cr <;> rw [hcr] at hmem <;> exact absurd hmem (by decide)

theorem readStart_wire (ht : t.Valid) (s : HttpSession) :
    readStart .response s t.wire =
      some { s with parsePhase := .resHeader, statusCode := number t.code } := by
  obtain ⟨status, hparse, hcode⟩ := statusLineParse_wire ht
  rw [readStart, if_neg (lf_notMem_wire ht)]
  simp only [hparse, hcode]

theorem head_recorded (ht : t.Valid) {fields : List FieldText}
    (hfields : ∀ f ∈ fields, f.Valid ∧ f.Plain) (cr : Bool) (payload : Payload) (s : HttpSession) :
    Message.head .response s
        ⟨t.wire, fields.map FieldText.wire, if cr then [CR] else [], payload⟩ =
      some (fields.foldl (fun s f => addField s .response f.name f.value)
        { s with parsePhase := .resHeader, statusCode := number t.code }) := by
  have hempty : ¬ (LF ∈ (if cr then [CR] else []) ∨
      lineLen (rawLine (if cr then [CR] else [])) ≠ 0) := by
    cases cr <;> decide
  rw [Message.head, if_neg hempty, readStart_wire ht, Option.bind_some,
    FieldText.readFields_wire hfields]

end StatusText

end CloudHands.Http

import Mathlib.Data.List.TakeWhile
import CloudHands.Http.Built
import CloudHands.Http.Message

/-!
# Request lines

A request line as it is put together, and what `ch_http_request_line_parse` takes out of it. The
target may hold blanks; it ends at the last run of them before an `H`.
-/

namespace CloudHands.Http

section Walks

variable {S L : Type} {step : ℕ → UInt8 → S → L → Scan S L} {p : ℕ} {state state' state'' : S}
  {line line' line'' : L} {b : UInt8} {w w' : List UInt8}

/-- From one state the machine gets to another one over `w`, whatever stands behind. -/
def Walks (step : ℕ → UInt8 → S → L → Scan S L) (p : ℕ) (state : S) (line : L) (w : List UInt8)
    (state' : S) (line' : L) : Prop :=
  ∀ rest, scan step p state line (w ++ rest) = scan step (p + w.length) state' line' rest

theorem Walks.nil : Walks step p state line [] state line := fun _ => rfl

theorem Walks.cons (hstep : step p b state line = .next state' line')
    (h : Walks step (p + 1) state' line' w state'' line'') :
    Walks step p state line (b :: w) state'' line'' := by
  intro rest
  rw [List.cons_append, scan, hstep]
  dsimp only
  rw [h rest, List.length_cons, Nat.add_assoc, Nat.add_comm 1]

theorem Walks.one (hstep : step p b state line = .next state' line') :
    Walks step p state line [b] state' line' := .cons hstep .nil

theorem Walks.trans (h : Walks step p state line w state' line')
    (h' : Walks step (p + w.length) state' line' w' state'' line'') :
    Walks step p state line (w ++ w') state'' line'' := by
  intro rest
  rw [List.append_assoc, h, h', List.length_append, Nat.add_assoc]

theorem Walks.stays (h : ∀ p, ∀ b ∈ w, step p b state line = .next state line) :
    Walks step p state line w state line := by
  induction w generalizing p with
  | nil => exact .nil
  | cons b w ih =>
    exact .cons (h p b List.mem_cons_self) (ih fun p c hc => h p c (List.mem_cons_of_mem _ hc))

theorem le_foldl_number (digits : List UInt8) (n : ℕ) :
    n ≤ digits.foldl (fun n b => n * 10 + digitValue b) n := by
  induction digits generalizing n with
  | nil => exact le_rfl
  | cons c digits ih => exact (by omega : n ≤ n * 10 + digitValue c).trans (ih _)

theorem Walks.digits {digits : List UInt8} {n : ℕ} (line : ℕ → L)
    (hstep : ∀ p n, ∀ b ∈ digits, n ≤ 99 →
      step p b state (line n) = .next state (line (n * 10 + digitValue b)))
    (hn : digits.foldl (fun n b => n * 10 + digitValue b) n < 1000) :
    Walks step p state (line n) digits state
      (line (digits.foldl (fun n b => n * 10 + digitValue b) n)) := by
  induction digits generalizing p n with
  | nil => exact .nil
  | cons b digits ih =>
    have hsmall : n * 10 + digitValue b < 1000 := (le_foldl_number digits _).trans_lt hn
    exact .cons (hstep p n b List.mem_cons_self (by omega))
      (ih (fun p n c hc => hstep p n c (List.mem_cons_of_mem _ hc)) hn)

end Walks

def blank : UInt8 := 32

def number (digits : List UInt8) : ℕ := digits.foldl (fun n b => n * 10 + digitValue b) 0

theorem number_cons (b : UInt8) (digits : List UInt8) :
    number (b :: digits) = digits.foldl (fun n b => n * 10 + digitValue b) (digitValue b) := by
  simp [number]

def IsNumber (digits : List UInt8) : Prop :=
  digits ≠ [] ∧ (∀ b ∈ digits, isDigit b = true) ∧ number digits < 1000

structure HttpVersion where
  major : List UInt8
  minor : List UInt8

def HttpVersion.wire (v : HttpVersion) : List UInt8 :=
  bytesOf "HTTP/" ++ v.major ++ bytesOf "." ++ v.minor

structure HttpVersion.Valid (v : HttpVersion) : Prop where
  major : IsNumber v.major
  major_head : v.major.head? ≠ some 48
  minor : IsNumber v.minor

structure LineEnd where
  blanks : ℕ
  cr : Bool

def LineEnd.wire (e : LineEnd) : List UInt8 :=
  List.replicate e.blanks blank ++ if e.cr then [CR] else []

theorem LineEnd.lf_notMem (e : LineEnd) : LF ∉ e.wire := by
  intro hmem
  rw [LineEnd.wire, List.mem_append, List.mem_replicate] at hmem
  rcases hmem with ⟨-, heq⟩ | hmem
  · exact absurd heq (by decide)
  · cases hcr : e.cr <;> rw [hcr] at hmem <;> exact absurd hmem (by decide)

inductive Host
  | name (text : List UInt8)
  | literal (text : List UInt8)

def Host.wire : Host → List UInt8
  | .name text => text
  | .literal text => bytesOf "[" ++ text ++ bytesOf "]"

def Host.Valid : Host → Prop
  | .name text => ∀ b ∈ text, (isLetter b || isDigit b || chr b = '.' || chr b = '-') = true
  | .literal text => ∀ b ∈ text, isDigit b = true ∨ isLetter b = true ∨
      b ∈ bytesOf ":-._~!$&'()*+,;="

inductive Target
  | origin (path : List UInt8)
  | absolute (schema : List UInt8) (host : Host) (port : Option (List UInt8)) (path : List UInt8)

namespace Target

def path : Target → List UInt8
  | .origin path => path
  | .absolute _ _ _ path => path

def wire : Target → List UInt8
  | .origin path => path
  | .absolute schema host port path =>
    schema ++ bytesOf "://" ++ host.wire ++ port.elim [] (bytesOf ":" ++ ·) ++ path

def authority : Target → List UInt8
  | .origin _ => []
  | .absolute schema host port _ =>
    schema ++ bytesOf "://" ++ host.wire ++ port.elim [] (bytesOf ":" ++ ·)

theorem wire_eq (target : Target) : target.wire = target.authority ++ target.path := by
  cases target with
  | origin path => rfl
  | absolute schema host port path => rfl

/-- What is recorded of a target: its path, or one slash where the URL has none. -/
def uri (target : Target) : List UInt8 := if target.path = [] then bytesOf "/" else target.path

def IsPath (path : List UInt8) : Prop := path.head? = some 47 ∧ ∀ b ∈ path, b ≠ 0 ∧ b ≠ CR ∧ b ≠ LF

def Valid : Target → Prop
  | .origin path => IsPath path
  | .absolute schema host port path =>
    (schema ≠ [] ∧ ∀ b ∈ schema, isLetter b = true) ∧ host.Valid ∧
      (∀ digits ∈ port, ∀ b ∈ digits, isDigit b = true) ∧ (path = [] ∨ IsPath path)

end Target

/-- No `H` directly behind a blank, and no blank at the end. -/
def Solid (path : List UInt8) : Prop :=
  path.IsChain (fun b c => ¬ (b = blank ∧ c = 72)) ∧ path.getLast? ≠ some blank

instance (path : List UInt8) : Decidable (Solid path) := inferInstanceAs (Decidable (_ ∧ _))

structure RequestText where
  method : List UInt8
  blanks : ℕ
  target : Target
  blanks' : ℕ
  version : HttpVersion
  lineEnd : LineEnd

namespace RequestText

def wire (l : RequestText) : List UInt8 :=
  l.method ++ List.replicate (l.blanks + 1) blank ++ l.target.wire ++
    List.replicate (l.blanks' + 1) blank ++ l.version.wire ++ l.lineEnd.wire

structure Valid (l : RequestText) : Prop where
  method_ne_nil : l.method ≠ []
  method : ∀ b ∈ l.method, isMethodChar b = true
  target : l.target.Valid
  version : l.version.Valid

def httpVersion (l : RequestText) : ℕ := number l.version.major * 1000 + number l.version.minor

end RequestText

theorem chr_injective {b c : UInt8} (h : chr b = chr c) : b = c := by
  rw [← UInt8.toNat_inj, ← toNat_chr b, h, toNat_chr c]

def InUri : RequestState → Prop
  | .afterSlashInUri | .checkUri | .uri => True
  | _ => False

def BehindUri : RequestState → Prop
  | .checkUriHttp09 | .http09 => True
  | _ => False

def UriAfter (b : UInt8) (state : RequestState) :
    Prop := if b = blank then BehindUri state else InUri state

section Uri

variable {raw : List UInt8} {p : ℕ} {r : RequestLine} {b : UInt8}

def UriByte (b : UInt8) : Prop := b ≠ 0 ∧ b ≠ CR ∧ b ≠ LF

theorem afterSlashInUriStep_next (hb : UriByte b) (hblank : b ≠ blank) :
    ∃ state, afterSlashInUriStep p b r = .next state r ∧ InUri state := by
  unfold afterSlashInUriStep
  split
  · exact ⟨_, rfl, trivial⟩
  · split
    case h_1 hchr => exact absurd (chr_injective hchr) hblank
    case h_2 hchr => exact absurd (chr_injective hchr) hb.2.1
    case h_3 hchr => exact absurd (chr_injective hchr) hb.2.2
    case h_10 hchr => exact absurd (chr_injective hchr) hb.1
    all_goals exact ⟨_, rfl, trivial⟩

theorem checkUriStep_next (p : ℕ) (r : RequestLine) (hb : UriByte b) (hblank : b ≠ blank) :
    ∃ state, checkUriStep p b r = .next state r ∧ InUri state := by
  unfold checkUriStep
  split
  · exact ⟨_, rfl, trivial⟩
  · split
    case h_3 hchr => exact absurd (chr_injective hchr) hblank
    case h_4 hchr => exact absurd (chr_injective hchr) hb.2.1
    case h_5 hchr => exact absurd (chr_injective hchr) hb.2.2
    case h_10 hchr => exact absurd (chr_injective hchr) hb.1
    all_goals exact ⟨_, rfl, trivial⟩

theorem uriStep_next (p : ℕ) (r : RequestLine) (hb : UriByte b) (hblank : b ≠ blank) :
    ∃ state, uriStep p b r = .next state r ∧ InUri state := by
  unfold uriStep
  split
  · exact ⟨_, rfl, trivial⟩
  · split
    case h_1 hchr => exact absurd (chr_injective hchr) hblank
    case h_2 hchr => exact absurd (chr_injective hchr) hb.2.1
    case h_3 hchr => exact absurd (chr_injective hchr) hb.2.2
    case h_5 hchr => exact absurd (chr_injective hchr) hb.1
    all_goals exact ⟨_, rfl, trivial⟩

theorem inUri_blank (raw : List UInt8) (p : ℕ) (r : RequestLine) {state : RequestState}
    (hstate : InUri state) :
    ∃ state', requestStep raw p blank state r = .next state' { r with uriEnd := some p } ∧
      BehindUri state' := by
  cases state <;> first | exact hstate.elim | exact ⟨_, rfl, trivial⟩

theorem behindUri_blank {state : RequestState} (hstate : BehindUri state) :
    requestStep raw p blank state r = .next state r := by
  cases state <;> first | exact hstate.elim | rfl

theorem behindUri_H {state : RequestState} (hstate : BehindUri state) :
    requestStep raw p 72 state r = .next .httpH r := by
  cases state <;> first | exact hstate.elim | rfl

theorem inUri_byte (raw : List UInt8) (p : ℕ) (r : RequestLine) {state : RequestState}
    (hstate : InUri state)
    (hb : UriByte b) (hblank : b ≠ blank) :
    ∃ state', requestStep raw p b state r = .next state' r ∧ InUri state' := by
  cases state with
  | afterSlashInUri => exact afterSlashInUriStep_next hb hblank
  | checkUri => exact checkUriStep_next p r hb hblank
  | uri => exact uriStep_next p r hb hblank
  | _ => exact hstate.elim

theorem afterUri_other {other : RequestScan} {here : RequestState} (hb : UriByte b)
    (hblank : b ≠ blank) (hH : b ≠ 72) : afterUri other b r here = other := by
  unfold afterUri
  split
  case h_1 hchr => exact absurd (chr_injective hchr) hblank
  case h_2 hchr => exact absurd (chr_injective hchr) hb.2.1
  case h_3 hchr => exact absurd (chr_injective hchr) hb.2.2
  case h_4 hchr => exact absurd (chr_injective hchr) hH
  case h_5 => rfl

theorem behindUri_byte (raw : List UInt8) (p : ℕ) (r : RequestLine) {state : RequestState}
    (hstate : BehindUri state) (hb : UriByte b) (hblank : b ≠ blank) (hH : b ≠ 72) :
    ∃ state', requestStep raw p b state r = .next state' r ∧ InUri state' := by
  cases state with
  | checkUriHttp09 =>
    obtain ⟨state', hstep, hin⟩ := checkUriStep_next p r hb hblank
    exact ⟨state', (afterUri_other hb hblank hH).trans hstep, hin⟩
  | http09 =>
    obtain ⟨state', hstep, hin⟩ := uriStep_next p r hb hblank
    exact ⟨state', (afterUri_other hb hblank hH).trans hstep, hin⟩
  | _ => exact hstate.elim

theorem uriAfter_next (raw : List UInt8) (p : ℕ) (r : RequestLine) {c : UInt8}
    {state : RequestState}
    (hstate : UriAfter b state) (hc : UriByte c) (hpair : ¬ (b = blank ∧ c = 72)) :
    ∃ state' uriEnd, requestStep raw p c state r = .next state' { r with uriEnd := uriEnd } ∧
      UriAfter c state' := by
  unfold UriAfter at hstate ⊢
  by_cases hcblank : c = blank
  · subst hcblank
    split at hstate
    · exact ⟨state, r.uriEnd, behindUri_blank hstate, by simpa using hstate⟩
    · obtain ⟨state', hstep, hbehind⟩ := inUri_blank raw p r hstate
      exact ⟨state', _, hstep, by simpa using hbehind⟩
  · simp only [if_neg hcblank]
    split at hstate
    · rename_i hb
      obtain ⟨state', hstep, hin⟩ := behindUri_byte raw p r hstate hc hcblank
        fun hH => hpair ⟨hb, hH⟩
      exact ⟨state', r.uriEnd, hstep, hin⟩
    · obtain ⟨state', hstep, hin⟩ := inUri_byte raw p r hstate hc hcblank
      exact ⟨state', r.uriEnd, hstep, hin⟩

theorem walks_uri (raw : List UInt8) (p : ℕ) (r : RequestLine) {w : List UInt8}
    {state : RequestState}
    (hstate : UriAfter b state) (hw : ∀ c ∈ w, UriByte c)
    (hchain : (b :: w).IsChain fun b c => ¬ (b = blank ∧ c = 72)) :
    ∃ state' uriEnd, Walks (requestStep raw) p state r w state' { r with uriEnd := uriEnd } ∧
      UriAfter ((b :: w).getLast (List.cons_ne_nil _ _)) state' := by
  induction w generalizing b state p r with
  | nil => exact ⟨state, r.uriEnd, .nil, hstate⟩
  | cons c w ih =>
    obtain ⟨hc, hw⟩ := List.forall_mem_cons.1 hw
    obtain ⟨hpair, hchain⟩ := List.isChain_cons_cons.1 hchain
    obtain ⟨state₁, uriEnd₁, hstep, hstate₁⟩ := uriAfter_next raw p r hstate hc hpair
    obtain ⟨state₂, uriEnd₂, hwalk, hlast⟩ := ih (p := p + 1) (r := { r with uriEnd := uriEnd₁ })
      hstate₁ hw hchain
    exact ⟨state₂, uriEnd₂, .cons hstep hwalk, hlast⟩

theorem walks_path {w : List UInt8} (hw : ∀ c ∈ w, UriByte c) (hsolid : Solid (47 :: w))
    (blanks : ℕ) :
    Walks (requestStep raw) p .afterSlashInUri r (w ++ (List.replicate (blanks + 1) blank ++ [72]))
      .httpH { r with uriEnd := some (p + w.length) } := by
  have hslash : UriAfter 47 .afterSlashInUri := trivial
  obtain ⟨state, uriEnd, hwalk, hlast⟩ := walks_uri raw p r hslash hw hsolid.1
  have hin : InUri state := by
    rw [UriAfter, if_neg] at hlast
    · exact hlast
    · intro heq
      exact hsolid.2 (by rw [List.getLast?_eq_getLast_of_ne_nil (List.cons_ne_nil _ _), heq])
  refine hwalk.trans ?_
  obtain ⟨state', hstep, hbehind⟩ := inUri_blank raw (p + w.length)
    { r with uriEnd := uriEnd } hin
  rw [List.replicate_succ, List.cons_append]
  refine .cons hstep ((Walks.stays fun p b hb => ?_).trans (.one (behindUri_H hbehind)))
  rw [List.eq_of_mem_replicate hb]
  exact behindUri_blank hbehind

end Uri

theorem isDigit_iff {b : UInt8} : isDigit b = true ↔ 48 ≤ b.toNat ∧ b.toNat ≤ 57 := by
  simp [isDigit, UInt8.le_iff_toNat_le]

theorem chr_ne_of_isDigit {b c : UInt8} (hb : isDigit b = true) (hc : isDigit c = false) :
    chr b ≠ chr c := by
  intro h
  rw [chr_injective h, hc] at hb
  exact Bool.false_ne_true hb

section Version

variable {raw : List UInt8} {p : ℕ} {r : RequestLine}

theorem walks_major {digits : List UInt8} (h : IsNumber digits) (hhead : digits.head? ≠ some 48) :
    Walks (requestStep raw) p .firstMajorDigit r digits .majorDigit
      { r with httpMajor := number digits } := by
  obtain ⟨hne, hdigits, hsmall⟩ := h
  obtain ⟨b, digits, rfl⟩ := List.exists_cons_of_ne_nil hne
  obtain ⟨hb, hdigits⟩ := List.forall_mem_cons.1 hdigits
  have hzero : chr b ≠ '0' := fun heq =>
    hhead (congrArg some (chr_injective (heq : chr b = chr 48)))
  have hfirst : requestStep raw p b .firstMajorDigit r =
      .next .majorDigit { r with httpMajor := digitValue b } := by
    simp [requestStep, hb, hzero]
  rw [number_cons] at hsmall ⊢
  refine .cons hfirst (Walks.digits (fun n => { r with httpMajor := n }) ?_ hsmall)
  intro p n c hc hn
  have hdigit := hdigits c hc
  have hdot : chr c ≠ '.' := chr_ne_of_isDigit (c := 46) hdigit rfl
  have hroom : ¬ n > 99 := by omega
  simp [requestStep, hdot, hdigit, hroom]

theorem walks_minor {digits : List UInt8} (h : IsNumber digits) :
    Walks (requestStep raw) p .firstMinorDigit r digits .minorDigit
      { r with httpMinor := number digits } := by
  obtain ⟨hne, hdigits, hsmall⟩ := h
  obtain ⟨b, digits, rfl⟩ := List.exists_cons_of_ne_nil hne
  obtain ⟨hb, hdigits⟩ := List.forall_mem_cons.1 hdigits
  have hfirst : requestStep raw p b .firstMinorDigit r =
      .next .minorDigit { r with httpMinor := digitValue b } := by
    simp [requestStep, hb]
  rw [number_cons] at hsmall ⊢
  refine .cons hfirst (Walks.digits (fun n => { r with httpMinor := n }) ?_ hsmall)
  intro p n c hc hn
  have hdigit := hdigits c hc
  have hcr : c ≠ CR := fun heq => chr_ne_of_isDigit (c := CR) hdigit rfl (congrArg chr heq)
  have hlf : c ≠ LF := fun heq => chr_ne_of_isDigit (c := LF) hdigit rfl (congrArg chr heq)
  have hspace : chr c ≠ ' ' := chr_ne_of_isDigit (c := 32) hdigit rfl
  have hroom : ¬ n > 99 := by omega
  simp [requestStep, hcr, hlf, hspace, hdigit, hroom]

theorem scan_lineEnd (e : LineEnd) :
    scan (requestStep raw) p .minorDigit r (e.wire ++ [LF]) = some r := by
  obtain ⟨blanks, cr⟩ := e
  cases blanks with
  | zero => cases cr <;> rfl
  | succ blanks =>
    have hblank : requestStep raw p blank .minorDigit r = .next .spacesAfterDigit r := rfl
    have hwalk : Walks (requestStep raw) p .minorDigit r (List.replicate (blanks + 1) blank)
        .spacesAfterDigit r := by
      rw [List.replicate_succ]
      refine .cons hblank (.stays fun p b hb => ?_)
      rw [List.eq_of_mem_replicate hb]
      rfl
    rw [LineEnd.wire, List.append_assoc, hwalk]
    cases cr <;> rfl

/-- The rest of a line from the `H` of its version. -/
theorem scan_version {v : HttpVersion} (hv : v.Valid) (e : LineEnd) :
    scan (requestStep raw) p .httpH r
      (bytesOf "TTP/" ++ (v.major ++ ([46] ++ (v.minor ++ (e.wire ++ [LF]))))) =
        some { r with httpMajor := number v.major, httpMinor := number v.minor } := by
  have hname : Walks (requestStep raw) p .httpH r (bytesOf "TTP/") .firstMajorDigit r :=
    .cons rfl (.cons rfl (.cons rfl (.one rfl)))
  have hdot : ∀ p r, Walks (requestStep raw) p .majorDigit r [46] .firstMinorDigit r :=
    fun _ _ => .one rfl
  rw [hname, walks_major hv.major hv.major_head, hdot, walks_minor hv.minor, scan_lineEnd]

/-- The states from the `H` of the version on. -/
def InVersion : RequestState → Prop
  | .httpH | .httpHT | .httpHTT | .httpHTTP | .firstMajorDigit | .majorDigit | .firstMinorDigit
  | .minorDigit | .spacesAfterDigit | .almostDone => True
  | _ => False

def found (r : RequestLine) : List (Option ℕ) := [r.requestStart, r.methodEnd, r.uriStart, r.uriEnd]

def StaysInVersion (r : RequestLine) : RequestScan → Prop
  | .next state r' => InVersion state ∧ found r' = found r
  | .done r' => found r' = found r
  | .invalid => True

theorem requestStep_inVersion (raw : List UInt8) (p : ℕ) (r : RequestLine) {state : RequestState}
    (hstate : InVersion state) (b : UInt8) :
    StaysInVersion r (requestStep raw p b state r) := by
  cases state <;> first | exact hstate.elim | skip
  all_goals
    simp only [requestStep, expect]
    repeat' split
    all_goals first | exact ⟨trivial, rfl⟩ | exact rfl | exact trivial

theorem found_of_scan {rest : List UInt8} {r' : RequestLine}
    (h : scan (requestStep raw) p .httpH r rest = some r') : found r' = found r := by
  have hin : InVersion .httpH := trivial
  refine scan_invariant (fun state r' => InVersion state ∧ found r' = found r) (found · = found r)
    ?_ ?_ ⟨hin, rfl⟩ h
  · rintro p b state r₁ state' r₂ ⟨hin, hfound⟩ hstep
    have hstays := requestStep_inVersion raw p r₁ hin b
    rw [hstep] at hstays
    exact ⟨hstays.1, hstays.2.trans hfound⟩
  · rintro p b state r₁ r₂ ⟨hin, hfound⟩ hstep
    have hstays := requestStep_inVersion raw p r₁ hin b
    rw [hstep] at hstays
    exact hstays.trans hfound

end Version

section Front

variable {raw : List UInt8} {p : ℕ} {r : RequestLine}

theorem isMethodChar_ne {b : UInt8} (h : isMethodChar b = true) :
    b ≠ CR ∧ b ≠ LF ∧ chr b ≠ ' ' := by
  refine ⟨?_, ?_, fun hchr => ?_⟩
  · rintro rfl
    exact absurd h (by decide)
  · rintro rfl
    exact absurd h (by decide)
  · obtain rfl : b = 32 := chr_injective hchr
    exact absurd h (by decide)

theorem walks_method (raw : List UInt8) {name : List UInt8} (hne : name ≠ [])
    (hname : ∀ b ∈ name, isMethodChar b = true) :
    ∃ method, Walks (requestStep raw) 0 .start {} (name ++ [blank]) .spacesBeforeUri
      { requestStart := some 0, methodEnd := some (name.length - 1), method := method } := by
  obtain ⟨b, rest, rfl⟩ := List.exists_cons_of_ne_nil hne
  obtain ⟨hb, hrest⟩ := List.forall_mem_cons.1 hname
  obtain ⟨hcr, hlf, -⟩ := isMethodChar_ne hb
  have hfirst : requestStep raw 0 b .start {} = .next .method { requestStart := some 0 } := by
    simp [requestStep, hcr, hlf, hb]
  have hmore : Walks (requestStep raw) 1 .method { requestStart := some 0 } rest .method
      { requestStart := some 0 } :=
    .stays fun p c hc => by simp [requestStep, (isMethodChar_ne (hrest c hc)).2.2, hrest c hc]
  have hend : ∃ method, requestStep raw (1 + rest.length) blank .method { requestStart := some 0 } =
      .next .spacesBeforeUri
        { requestStart := some 0, methodEnd := some (1 + rest.length - 1), method := method } := by
    have hblank : chr blank = ' ' := rfl
    simp only [requestStep, if_pos hblank]
    split <;> exact ⟨_, rfl⟩
  obtain ⟨method, hend⟩ := hend
  refine ⟨method, ?_⟩
  rw [List.cons_append, List.length_cons, Nat.add_comm rest.length]
  exact .cons hfirst (hmore.trans (.one hend))

theorem walks_blanks (raw : List UInt8) (p : ℕ) (r : RequestLine) (blanks : ℕ) :
    Walks (requestStep raw) p .spacesBeforeUri r (List.replicate blanks blank) .spacesBeforeUri r :=
  .stays fun p b hb => by
    rw [List.eq_of_mem_replicate hb]
    rfl

def BeforePath (state : RequestState) : Prop :=
  ∀ raw p r, requestStep raw p 47 state r = .next .afterSlashInUri { r with uriStart := some p }

def BehindAuthority (state : RequestState) : Prop :=
  BeforePath state ∧ ∀ raw p r, requestStep raw p blank state r = .next .hostHttp09
    { r with uriStart := r.schemaEnd.map (· + 1), uriEnd := r.schemaEnd.map (· + 2) }

theorem walks_schema (raw : List UInt8) (p : ℕ) (r : RequestLine) {schema : List UInt8}
    (hne : schema ≠ [])
    (hschema : ∀ b ∈ schema, isLetter b = true) :
    Walks (requestStep raw) p .spacesBeforeUri r (schema ++ bytesOf "://") .hostStart
      { r with schemaEnd := some (p + schema.length) } := by
  obtain ⟨b, rest, rfl⟩ := List.exists_cons_of_ne_nil hne
  obtain ⟨hb, hrest⟩ := List.forall_mem_cons.1 hschema
  have hslash : chr b ≠ '/' := by
    intro hchr
    obtain rfl : b = 47 := chr_injective hchr
    exact absurd hb (by decide)
  have hfirst : requestStep raw p b .spacesBeforeUri r = .next .schema r := by
    simp [requestStep, hslash, hb]
  have hmore : Walks (requestStep raw) (p + 1) .schema r rest .schema r :=
    .stays fun p c hc => by simp [requestStep, hrest c hc]
  rw [List.cons_append, List.length_cons, Nat.add_comm rest.length, ← Nat.add_assoc]
  exact .cons hfirst (hmore.trans (.cons rfl (.cons rfl (.one rfl))))

def BehindHost (state : RequestState) : Prop :=
  BehindAuthority state ∧ ∀ raw p r, requestStep raw p 58 state r = .next .port r

theorem walks_host (raw : List UInt8) (p : ℕ) (r : RequestLine) {host : Host} (h : host.Valid) :
    ∃ state, Walks (requestStep raw) p .hostStart r host.wire state r ∧ BehindHost state := by
  cases host with
  | name text =>
    cases text with
    | nil => exact ⟨.hostStart, .nil, ⟨fun _ _ _ => rfl, fun _ _ _ => rfl⟩, fun _ _ _ => rfl⟩
    | cons b rest =>
      obtain ⟨hb, hrest⟩ := List.forall_mem_cons.1 h
      have hbracket : chr b ≠ '[' := by
        intro hchr
        obtain rfl : b = 91 := chr_injective hchr
        exact absurd hb (by decide)
      have hfirst : requestStep raw p b .hostStart r = .next .host r := by
        rw [requestStep, if_neg hbracket, hostStep, if_pos hb]
      have hmore : Walks (requestStep raw) (p + 1) .host r rest .host r :=
        .stays fun p c hc => by rw [requestStep, hostStep, if_pos (hrest c hc)]
      exact ⟨.host, .cons hfirst hmore, ⟨fun _ _ _ => rfl, fun _ _ _ => rfl⟩, fun _ _ _ => rfl⟩
  | literal text =>
    have hmore : ∀ p, Walks (requestStep raw) p .hostIpLiteral r text .hostIpLiteral r := by
      refine fun p => .stays fun p b hb => ?_
      rw [requestStep, hostIpLiteralStep]
      rcases h b hb with hdigit | hletter | hother
      · simp [hdigit]
      · simp [hletter]
      · have hend : chr b ≠ ']' := by
          intro hchr
          obtain rfl : b = 93 := chr_injective hchr
          exact absurd hother (by decide)
        simp [hend, hother]
    refine ⟨.hostEnd, ?_, ⟨fun _ _ _ => rfl, fun _ _ _ => rfl⟩, fun _ _ _ => rfl⟩
    have hopen : Walks (requestStep raw) p .hostStart r (bytesOf "[") .hostIpLiteral r := .one rfl
    exact (hopen.trans (hmore _)).trans (.one rfl)

theorem walks_port (raw : List UInt8) (p : ℕ) (r : RequestLine) {state : RequestState}
    {port : Option (List UInt8)} (hstate : BehindHost state)
    (hport : ∀ digits ∈ port, ∀ b ∈ digits, isDigit b = true) :
    ∃ state', Walks (requestStep raw) p state r (port.elim [] (bytesOf ":" ++ ·)) state' r ∧
      BehindAuthority state' := by
  cases port with
  | none => exact ⟨state, .nil, hstate.1⟩
  | some digits =>
    have hdigits : Walks (requestStep raw) (p + 1) .port r digits .port r :=
      .stays fun p b hb => by simp [requestStep, hport digits rfl b hb]
    exact ⟨.port, .cons (hstate.2 _ _ _) hdigits, fun _ _ _ => rfl, fun _ _ _ => rfl⟩

end Front

theorem exists_violation {α : Type} {R : α → α → Prop} {xs : List α} (h : ¬ xs.IsChain R) :
    ∃ w b c more, xs = w ++ b :: c :: more ∧ (w ++ [b]).IsChain R ∧ ¬ R b c := by
  induction xs using List.reverseRecOn with
  | nil => exact absurd .nil h
  | append_singleton xs c ih =>
    by_cases hxs : xs.IsChain R
    · obtain rfl | ⟨w, b, rfl⟩ := List.eq_nil_or_concat' xs
      · exact absurd (.singleton c) h
      · refine ⟨w, b, c, [], by simp, hxs, fun hbc => h ?_⟩
        rw [List.isChain_append]
        exact ⟨hxs, .singleton c, by simpa using hbc⟩
    · obtain ⟨w, b, c', more, rfl, hchain, hbc⟩ := ih hxs
      exact ⟨w, b, c', more ++ [c], by simp, hchain, hbc⟩

theorem exists_trimmed (w : List UInt8) :
    ∃ u blanks, w = u ++ List.replicate blanks blank ∧ u.getLast? ≠ some blank := by
  induction w using List.reverseRecOn with
  | nil => exact ⟨[], 0, rfl, by simp⟩
  | append_singleton w b ih =>
    by_cases hb : b = blank
    · obtain ⟨u, blanks, rfl, hlast⟩ := ih
      refine ⟨u, blanks + 1, ?_, hlast⟩
      rw [hb, List.replicate_succ', List.append_assoc]
    · exact ⟨w ++ [b], 0, by simp, by simpa using hb⟩

theorem exists_cut {path : List UInt8} (hpath : Target.IsPath path) (blanks : ℕ) :
    ∃ w blanks' more, path ++ (List.replicate (blanks + 1) blank ++ [72]) =
        47 :: w ++ (List.replicate (blanks' + 1) blank ++ [72]) ++ more ∧
      (∀ b ∈ w, UriByte b) ∧ Solid (47 :: w) := by
  obtain ⟨hhead, hbytes⟩ := hpath
  obtain ⟨path, rfl⟩ := List.head?_eq_some_iff.1 hhead
  have hviolates : ¬ ((47 :: path) ++ (List.replicate (blanks + 1) blank ++ [72])).IsChain
      fun b c => ¬ (b = blank ∧ c = 72) := by
    intro hchain
    rw [List.replicate_succ', List.append_assoc, List.singleton_append] at hchain
    have hlast := (hchain.right_of_append.right_of_append)
    exact (List.isChain_cons_cons.1 hlast).1 ⟨rfl, rfl⟩
  obtain ⟨w, b, c, more, hsplit, hchain, hbc⟩ := exists_violation hviolates
  obtain ⟨rfl, rfl⟩ : b = blank ∧ c = 72 := not_not.1 hbc
  obtain ⟨u, k, hu, hlast⟩ := exists_trimmed (w ++ [blank])
  have hsplit' : (47 :: path) ++ (List.replicate (blanks + 1) blank ++ [72]) =
      u ++ (List.replicate k blank ++ [72]) ++ more := by
    rw [hsplit, ← List.append_assoc u, ← hu]
    simp
  obtain ⟨k, rfl⟩ : ∃ j, k = j + 1 := by
    cases k with
    | zero =>
      rw [List.replicate_zero, List.append_nil] at hu
      exact absurd (by rw [← hu, List.getLast?_concat]) hlast
    | succ k => exact ⟨k, rfl⟩
  cases u with
  | nil =>
    have hblank := congrArg List.head? hsplit'
    rw [List.replicate_succ] at hblank
    exact absurd (Option.some.inj hblank) (by decide)
  | cons b u =>
    obtain rfl : 47 = b := (List.cons.inj hsplit').1
    refine ⟨u, k, more, hsplit', fun c hc => ?_, ?_, hlast⟩
    · have hmem : c ∈ 47 :: path ++ (List.replicate (blanks + 1) blank ++ [72]) := by
        rw [hsplit']
        simp [hc]
      rw [List.mem_append, List.mem_append, List.mem_replicate, List.mem_singleton] at hmem
      rcases hmem with hmem | ⟨-, rfl⟩ | rfl
      · exact hbytes c hmem
      · exact ⟨by decide, by decide, by decide⟩
      · exact ⟨by decide, by decide, by decide⟩
    · rw [hu] at hchain
      exact hchain.left_of_append

theorem strndup_part (pre : List UInt8) {u : List UInt8} (post : List UInt8) (hu : 0 ∉ u) :
    strndup (pre ++ (u ++ post)) (some pre.length) (some (pre.length + u.length)) 0 = u := by
  rw [strndup]
  split
  · rename_i heq
    exact (List.length_eq_zero_iff.1 (by omega)).symm
  · rw [List.drop_left, Nat.add_sub_cancel_left, Nat.add_zero, List.take_left]
    exact List.takeWhile_eq_self_iff.2 fun b hb => by simpa using fun heq : b = 0 => hu (heq ▸ hb)

theorem strndup_method {name post : List UInt8} (hne : name ≠ []) (hname : 0 ∉ name) :
    strndup (name ++ post) (some 0) (some (name.length - 1)) 1 =
      if name.length = 1 then [] else name := by
  have hpos := List.length_pos_of_ne_nil hne
  rw [strndup]
  by_cases hone : name.length = 1
  · rw [if_pos (by omega), if_pos hone]
  · have hlen : name.length - 1 - 0 + 1 = name.length := by omega
    rw [if_neg (by omega), if_neg hone, List.drop_zero, hlen, List.take_left]
    exact List.takeWhile_eq_self_iff.2 fun b
      hb => by simpa using fun heq : b = 0 => hname (heq ▸ hb)

namespace RequestText

variable {l : RequestText} {raw : List UInt8}

def front (l : RequestText) : List UInt8 :=
  l.method ++ [blank] ++ List.replicate l.blanks blank ++ l.target.authority

def behind (l : RequestText) : List UInt8 :=
  bytesOf "TTP/" ++ (l.version.major ++ ([46] ++ (l.version.minor ++ (l.lineEnd.wire ++ [LF]))))

theorem rawLine_wire (l : RequestText) : rawLine l.wire =
    l.front ++ (l.target.path ++ (List.replicate (l.blanks' + 1) blank ++ [72]) ++ l.behind) := by
  have hname : bytesOf "HTTP/" = [72] ++ bytesOf "TTP/" := rfl
  have hdot : bytesOf "." = [46] := rfl
  simp only [rawLine, wire, front, behind, Target.wire_eq, HttpVersion.wire, hname, hdot,
    List.replicate_succ, List.append_assoc, List.cons_append, List.nil_append]

structure AtPath (l : RequestText) (state : RequestState) (r : RequestLine) : Prop where
  requestStart : r.requestStart = some 0
  methodEnd : r.methodEnd = some (l.method.length - 1)
  beforePath : BeforePath state
  noPath : l.target.path = [] → BehindAuthority state ∧ ∃ pre post,
    l.front = pre ++ (bytesOf "/" ++ post) ∧ r.schemaEnd.map (· + 1) = some pre.length

theorem walks_front (raw : List UInt8) (h : l.Valid) :
    ∃ state r, Walks (requestStep raw) 0 .start {} l.front state r ∧ AtPath l state r := by
  obtain ⟨method, hmethod⟩ := walks_method raw h.method_ne_nil h.method
  have hblanks := hmethod.trans (walks_blanks raw _ _ l.blanks)
  obtain ⟨_, _, _, _, _, _⟩ := l
  rename_i name blanks target blanks' version lineEnd
  cases target with
  | origin path =>
    refine ⟨_, _, hblanks.trans .nil, rfl, rfl, fun _ _ _ => rfl, fun hnil => ?_⟩
    obtain rfl : path = [] := hnil
    exact absurd h.target.1 (by simp)
  | absolute schema host port path =>
    obtain ⟨⟨hne, hschema⟩, hhost, hport, -⟩ := h.target
    have hbefore := hblanks.trans (walks_schema raw _ _ hne hschema)
    obtain ⟨state, hwalk, hstate⟩ := walks_host raw _ _ hhost
    obtain ⟨state', hwalk', hstate'⟩ := walks_port raw _ _ hstate hport
    have hall := (hbefore.trans hwalk).trans hwalk'
    have hfront : front ⟨name, blanks, .absolute schema host port path, blanks', version, lineEnd⟩ =
        name ++ [blank] ++ List.replicate blanks blank ++ (schema ++ bytesOf "://") ++ host.wire ++
          port.elim [] (bytesOf ":" ++ ·) := by
      simp only [front, Target.authority, List.append_assoc]
    refine ⟨state', _, hfront ▸ hall, rfl, rfl, hstate'.1, fun _ => ⟨hstate', name ++ [blank] ++
      List.replicate blanks blank ++ schema ++ bytesOf ":", bytesOf "/" ++ host.wire ++
      port.elim [] (bytesOf ":" ++ ·), ?_, ?_⟩⟩
    · have hslashes : bytesOf "://" = bytesOf ":" ++ (bytesOf "/" ++ bytesOf "/") := rfl
      simp only [hfront, hslashes, List.append_assoc]
    · simp only [Option.map_some, List.length_append, Option.some.injEq, Nat.zero_add]
      rfl

/-- The machine at the version, with `uri` for the text between the positions it has noted. -/
structure AtVersion (l : RequestText) (uri : List UInt8) (r : RequestLine) : Prop where
  requestStart : r.requestStart = some 0
  methodEnd : r.methodEnd = some (l.method.length - 1)
  uri : strndup (rawLine l.wire) r.uriStart r.uriEnd 0 = uri

theorem scan_path (more : List UInt8) (h : l.Valid) {w : List UInt8} {blanks : ℕ}
    (hcut : l.target.path ++ (List.replicate (l.blanks' + 1) blank ++ [72]) =
      47 :: w ++ (List.replicate (blanks + 1) blank ++ [72]) ++ more)
    (hw : ∀ b ∈ w, UriByte b) (hsolid : Solid (47 :: w)) :
    ∃ p r, scan (requestStep (rawLine l.wire)) 0 .start {} (rawLine l.wire) =
      scan (requestStep (rawLine l.wire)) p .httpH r (more ++ l.behind) ∧
        AtVersion l (47 :: w) r := by
  obtain ⟨state, r, hfront, hat⟩ := walks_front (rawLine l.wire) h
  have hslash := Walks.one (hat.beforePath (rawLine l.wire) (0 + l.front.length) r)
  have hwalk := (hfront.trans hslash).trans (walks_path hw hsolid blanks)
  have hraw :
      rawLine l.wire = l.front ++ (47 :: w ++ (List.replicate (blanks + 1) blank ++ [72] ++ more ++
      l.behind)) := by
    rw [rawLine_wire, hcut]
    simp only [List.append_assoc]
  have hzero : 0 ∉ 47 :: w := by
    intro hmem
    rcases List.mem_cons.1 hmem with heq | hmem
    · exact absurd heq (by decide)
    · exact (hw 0 hmem).1 rfl
  have hline := hwalk (more ++ l.behind)
  have hsame : l.front ++ [47] ++ (w ++ (List.replicate (blanks + 1) blank ++ [72])) ++
      (more ++ l.behind) = rawLine l.wire := by
    rw [hraw]
    simp only [List.append_assoc, List.cons_append, List.nil_append]
  rw [hsame] at hline
  refine ⟨_, _, hline, hat.requestStart, hat.methodEnd, ?_⟩
  have hstop : 0 + (l.front ++ [47]).length + w.length = l.front.length + (47 :: w).length := by
    simp only [List.length_append, List.length_cons, List.length_nil]
    omega
  simp only [Nat.zero_add] at hstop ⊢
  rw [hstop, hraw]
  exact strndup_part _ _ hzero

theorem scan_noPath (h : l.Valid) (hnil : l.target.path = []) :
    ∃ p r, scan (requestStep (rawLine l.wire)) 0 .start {} (rawLine l.wire) =
      scan (requestStep (rawLine l.wire)) p .httpH r l.behind ∧ AtVersion l (bytesOf "/") r := by
  obtain ⟨state, r, hfront, hat⟩ := walks_front (rawLine l.wire) h
  obtain ⟨hbehind, pre, post, hpre, hschema⟩ := hat.noPath hnil
  have hblank := hfront.trans (.one (hbehind.2 (rawLine l.wire) (0 + l.front.length) r))
  have hblanks : ∀ p r,
      Walks (requestStep (rawLine l.wire)) p .hostHttp09 r (List.replicate l.blanks' blank)
      .hostHttp09 r :=
    fun p r => .stays fun p b hb => by
      rw [List.eq_of_mem_replicate hb]
      rfl
  have hversion : ∀ p r, Walks (requestStep (rawLine l.wire)) p .hostHttp09 r [72] .httpH r :=
    fun p r => .one rfl
  have hwalk := (hblank.trans (hblanks _ _)).trans (hversion _ _)
  have hraw : rawLine l.wire = l.front ++ [blank] ++ List.replicate l.blanks' blank ++ [72] ++
      l.behind := by
    rw [rawLine_wire, hnil, List.replicate_succ]
    simp only [List.append_assoc, List.cons_append, List.nil_append]
  have hline := hwalk l.behind
  simp only [List.append_assoc] at hline hraw
  rw [← hraw] at hline
  refine ⟨_, _, hline, hat.requestStart, hat.methodEnd, ?_⟩
  obtain ⟨e, he, hschema⟩ := Option.map_eq_some_iff.1 hschema
  have hstart : r.schemaEnd.map (· + 1) = some pre.length := by rw [he, Option.map_some, hschema]
  have hend : r.schemaEnd.map (· + 2) = some (pre.length + (bytesOf "/").length) := by
    rw [he, Option.map_some, ← hschema]
    rfl
  simp only [hstart, hend]
  rw [rawLine_wire, hpre]
  simp only [List.append_assoc]
  exact strndup_part _ _ (by decide)

theorem zero_notMem_method (h : l.Valid) : 0 ∉ l.method := fun hmem =>
  absurd (h.method 0 hmem) (by decide)

theorem AtVersion.texts {uri : List UInt8} {r r' : RequestLine} (h : l.Valid)
    (hat : AtVersion l uri r)
    (hfound : found r' = found r) :
    strndup (rawLine l.wire) r'.requestStart r'.methodEnd 1 =
      (if l.method.length = 1 then [] else l.method) ∧
      strndup (rawLine l.wire) r'.uriStart r'.uriEnd 0 = uri := by
  simp only [found, List.cons.injEq, and_true] at hfound
  obtain ⟨hrequest, hmethod, hstart, hend⟩ := hfound
  rw [hstart, hend, hrequest, hmethod, hat.requestStart, hat.methodEnd]
  refine ⟨?_, hat.uri⟩
  have hraw : rawLine l.wire = l.method ++ ([blank] ++ (List.replicate l.blanks blank ++
      (l.target.authority ++ (l.target.path ++ (List.replicate (l.blanks' + 1) blank ++ [72]) ++
        l.behind)))) := by
    rw [rawLine_wire, front]
    simp only [List.append_assoc]
  rw [hraw]
  exact strndup_method h.method_ne_nil (zero_notMem_method h)

/-- The path, if there is one, can be told from the version. -/
def Clear (l : RequestText) : Prop := l.target.path = [] ∨ Solid l.target.path

theorem path_cases (h : l.Valid) : l.target.path = [] ∨ Target.IsPath l.target.path := by
  have htarget := h.target
  revert htarget
  cases l.target with
  | origin path => exact .inr
  | absolute schema host port path => exact fun htarget => htarget.2.2.2

theorem scan_clear (h : l.Valid) (hclear : l.Clear) :
    ∃ r r', scan (requestStep (rawLine l.wire)) 0 .start {} (rawLine l.wire) = some r' ∧
      AtVersion l l.target.uri r ∧ found r' = found r ∧ r'.httpMajor = number l.version.major ∧
      r'.httpMinor = number l.version.minor := by
  by_cases hnil : l.target.path = []
  · obtain ⟨p, r, hscan, hat⟩ := scan_noPath h hnil
    rw [behind, scan_version h.version] at hscan
    refine ⟨r, _, hscan, ?_, rfl, rfl, rfl⟩
    rwa [Target.uri, if_pos hnil]
  · obtain ⟨w, hw⟩ : ∃ w, l.target.path = 47 :: w :=
      List.head?_eq_some_iff.1 ((path_cases h).resolve_left hnil).1
    have hsolid := hclear.resolve_left hnil
    have hbytes : ∀ b ∈ w, UriByte b := fun b hb =>
      ((path_cases h).resolve_left hnil).2 b (hw ▸ List.mem_cons_of_mem _ hb)
    rw [hw] at hsolid
    obtain ⟨p, r, hscan, hat⟩ := scan_path [] h (by rw [hw, List.append_nil]) hbytes hsolid
    rw [List.nil_append, behind, scan_version h.version] at hscan
    refine ⟨r, _, hscan, ?_, rfl, rfl, rfl⟩
    rwa [Target.uri, if_neg hnil, hw]

theorem clear_of_scan (h : l.Valid) {r' : RequestLine}
    (hscan : scan (requestStep (rawLine l.wire)) 0 .start {} (rawLine l.wire) = some r') :
    ∃ uri r, AtVersion l uri r ∧ found r' = found r ∧ (uri = l.target.uri → l.Clear) := by
  by_cases hnil : l.target.path = []
  · obtain ⟨p, r, hread, hat⟩ := scan_noPath h hnil
    rw [hread] at hscan
    exact ⟨_, r, hat, found_of_scan hscan, fun _ => .inl hnil⟩
  · obtain ⟨w, blanks, more, hcut, hbytes, hsolid⟩ :=
      exists_cut ((path_cases h).resolve_left hnil) l.blanks'
    obtain ⟨p, r, hread, hat⟩ := scan_path more h hcut hbytes hsolid
    rw [hread] at hscan
    refine ⟨_, r, hat, found_of_scan hscan, fun huri => .inr ?_⟩
    rw [Target.uri, if_neg hnil] at huri
    exact huri ▸ hsolid

theorem lf_notMem_wire (h : l.Valid) : LF ∉ l.wire := by
  have hhost : ∀ host : Host, host.Valid → LF ∉ host.wire := by
    intro host hvalid hmem
    cases host with
    | name text => exact absurd (hvalid LF hmem) (by decide)
    | literal text =>
      simp only [Host.wire, List.mem_append, or_assoc] at hmem
      rcases hmem with hmem | hmem | hmem
      · exact absurd hmem (by decide)
      · exact absurd (hvalid LF hmem) (by decide)
      · exact absurd hmem (by decide)
  have htarget : LF ∉ l.target.wire := by
    have hvalid := h.target
    revert hvalid
    cases l.target with
    | origin path => exact fun hvalid hmem => (hvalid.2 LF hmem).2.2 rfl
    | absolute schema host port path =>
      rintro ⟨⟨-, hschema⟩, hhost', hport, hpath⟩ hmem
      simp only [Target.wire, List.mem_append, or_assoc] at hmem
      rcases hmem with hmem | hmem | hmem | hmem | hmem
      · exact absurd (hschema LF hmem) (by decide)
      · exact absurd hmem (by decide)
      · exact hhost host hhost' hmem
      · cases port with
        | none => exact absurd hmem List.not_mem_nil
        | some digits =>
          rcases List.mem_append.1 hmem with hmem | hmem
          · exact absurd hmem (by decide)
          · exact absurd (hport digits rfl LF hmem) (by decide)
      · rcases hpath with rfl | hpath
        · exact absurd hmem List.not_mem_nil
        · exact (hpath.2 LF hmem).2.2 rfl
  intro hmem
  simp only [wire, HttpVersion.wire, List.mem_append, List.mem_replicate, or_assoc] at hmem
  rcases hmem with hmem | ⟨-, heq⟩ | hmem | ⟨-, heq⟩ | hmem | hmem | hmem | hmem | hmem
  · exact absurd (h.method LF hmem) (by decide)
  · exact absurd heq (by decide)
  · exact htarget hmem
  · exact absurd heq (by decide)
  · exact absurd hmem (by decide)
  · exact absurd (h.version.major.2.1 LF hmem) (by decide)
  · exact absurd hmem (by decide)
  · exact absurd (h.version.minor.2.1 LF hmem) (by decide)
  · exact l.lineEnd.lf_notMem hmem

def recorded (l : RequestText) (s : HttpSession) : HttpSession :=
  { s with method := some l.method, httpVersion := l.httpVersion, uri := some l.target.uri,
           parsePhase := .reqHeader }

theorem one_le_number {digits : List UInt8} (h : IsNumber digits) (hhead : digits.head? ≠ some 48) :
    1 ≤ number digits := by
  obtain ⟨hne, hdigits, -⟩ := h
  obtain ⟨b, digits, rfl⟩ := List.exists_cons_of_ne_nil hne
  have hb := isDigit_iff.1 (hdigits b List.mem_cons_self)
  have hzero : b.toNat ≠ 48 := fun heq => hhead (congrArg some (UInt8.toNat_inj.1 heq))
  rw [number_cons]
  refine le_trans ?_ (le_foldl_number digits _)
  simp only [digitValue]
  omega

theorem requestLineParse_of_scan (h : l.Valid) {r' : RequestLine}
    (hmajor : r'.httpMajor = number l.version.major)
    (hscan : scan (requestStep (rawLine l.wire)) 0 .start {} (rawLine l.wire) = some r') :
    requestLineParse (rawLine l.wire) = some r' := by
  have hle := one_le_number h.version.major h.version.major_head
  rw [requestLineParse, hscan]
  exact if_neg fun hold => by omega

/-- A line is recorded as it stands exactly if its method has more than one letter and no `H`
comes directly behind a blank in its path, and no blank at the end of that. -/
theorem readStart_iff (h : l.Valid) (s : HttpSession) :
    readStart .request s l.wire = some (l.recorded s) ↔ l.method.length ≠ 1 ∧ l.Clear := by
  constructor
  · intro hread
    simp only [readStart, if_neg (lf_notMem_wire h)] at hread
    cases hparse : requestLineParse (rawLine l.wire) with
    | none => simp [hparse] at hread
    | some r' =>
      have hscan : scan (requestStep (rawLine l.wire)) 0 .start {} (rawLine l.wire) = some r' := by
        rw [requestLineParse] at hparse
        split at hparse
        · cases hparse
        · rename_i r₀ hr₀
          split at hparse
          · cases hparse
          · rw [hr₀, hparse]
      obtain ⟨uri, r, hat, hfound, hclear⟩ := clear_of_scan h hscan
      obtain ⟨hmethod, huri⟩ := hat.texts h hfound
      simp only [hparse] at hread
      split at hread
      · cases hread
      · have hsame := Option.some.inj hread
        have hm := congrArg HttpSession.method hsame
        have hu := congrArg HttpSession.uri hsame
        simp only [requestLineSet, recorded, hmethod, huri, Option.some.injEq] at hm hu
        refine ⟨fun hone => ?_, hclear hu⟩
        rw [if_pos hone] at hm
        rw [← hm] at hone
        exact absurd hone (by decide)
  · rintro ⟨hlen, hclear⟩
    obtain ⟨r, r', hscan, hat, hfound, hmajor, hminor⟩ := scan_clear h hclear
    obtain ⟨hmethod, huri⟩ := hat.texts h hfound
    have hle := one_le_number h.version.major h.version.major_head
    have hparse := requestLineParse_of_scan h hmajor hscan
    have hnew : ¬ number l.version.major * 1000 + number l.version.minor = 9 := by omega
    simp only [readStart, if_neg (lf_notMem_wire h), hparse, requestLineSet, hmethod, huri,
      if_neg hlen,
      hmajor, hminor, if_neg hnew]
    rfl

def blankInPath : RequestText where
  method := bytesOf "GET"
  blanks := 0
  target := .origin (bytesOf "/a b")
  blanks' := 0
  version := ⟨bytesOf "1", bytesOf "1"⟩
  lineEnd := ⟨0, true⟩

theorem blankInPath_recorded :
    readStart .request {} (bytesOf "GET /a b HTTP/1.1\r") =
      some { method := some (bytesOf "GET"), uri := some (bytesOf "/a b"), httpVersion := 1001,
             parsePhase := .reqHeader } := by
  have hvalid : blankInPath.Valid :=
    { method_ne_nil := by decide +kernel
      method := by decide +kernel
      target := ⟨by decide +kernel, by decide +kernel⟩
      version := ⟨⟨by decide +kernel, by decide +kernel, by decide +kernel⟩, by decide +kernel,
        by decide +kernel, by decide +kernel, by decide +kernel⟩ }
  exact (readStart_iff hvalid {}).2 ⟨by decide +kernel, .inr (by decide +kernel)⟩

end RequestText

end CloudHands.Http

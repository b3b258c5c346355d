import CloudHands.PartContent.Parser

/-!
# Merging the parts of one download

The responses of one download are parts of one file. What `doParse` returns for a sequence
of them is compared with the coverage of the file by the parts that have come so far.
-/

namespace CloudHands.PartContent

open Lib Slice

/-- A response with the bytes from `first` to `last` of the file, handled at `now`. -/
structure PartResponse (file : List UInt8) (key : String) where
  session : HTTPSession
  now : ℤ
  first : ℕ
  last : ℕ
  le : first ≤ last
  lt : last < file.length
  key_eq : session.get206Key = key
  status_eq : session.status = 206
  range_eq : session.contentRange = s!"bytes {first}-{last}/{file.length}".toList
  body_eq : session.resBody = .content (slice file first (last + 1))

variable {file : List UInt8} {key : String}

theorem findIdx?_of_split {p : Char → Bool} {before after : List Char} {c : Char}
    (hbefore : ∀ d ∈ before, p d = false) (hc : p c = true) :
    (before ++ c :: after).findIdx? p = some before.length := by
  have hnone : before.findIdx? p = none := List.findIdx?_eq_none_iff.2 hbefore
  rw [List.findIdx?_append, hnone, List.findIdx?_cons, if_pos hc]
  simp

theorem findIdx?_char (after : List Char) {before : List Char} {c : Char} (h : c ∉ before) :
    (before ++ c :: after).findIdx? (· = c) = some before.length :=
  findIdx?_of_split (fun _ hd => decide_eq_false fun heq => h (heq ▸ hd)) (decide_eq_true rfl)

theorem slice_of_split {α : Type} (before mid after : List α) :
    slice (before ++ (mid ++ after)) before.length (before.length + mid.length) = mid := by
  rw [slice, List.drop_left, Nat.add_sub_cancel_left, List.take_left]

theorem contentRange_chars (first last total : ℕ) :
    s!"bytes {first}-{last}/{total}".toList = "bytes ".toList ++ (Nat.toDigits 10 first ++
      ('-' :: (Nat.toDigits 10 last ++ ('/' :: Nat.toDigits 10 total)))) := by
  have hbytes : (toString "bytes ").toList = "bytes ".toList := rfl
  have hdash : (toString "-").toList = ['-'] := rfl
  have hslash : (toString "/").toList = ['/'] := rfl
  simp [String.toList_append, hbytes, hdash, hslash]

theorem parseLong_toDigits {digit : Char → Option ℕ}
    (hdigit : ∀ c : Char, c.toNat < 128 → digit c = asciiDigit c) {n : ℕ} (hn : n < 2 ^ 63) :
    parseLong digit (Nat.toDigits 10 n) = some (n : ℤ) :=
  parseSigned_toDigits hdigit (by omega) (by omega)

theorem not_mem_toDigits {c : Char} (hc : c.isDigit = false) (n : ℕ) : c ∉ Nat.toDigits 10 n :=
  fun hmem => absurd (isDigit_toDigits n c hmem) (by simp [hc])

theorem contentRangeParse_eq {digit : Char → Option ℕ}
    (hdigit : ∀ c : Char, c.toNat < 128 → digit c = asciiDigit c) {first last total : ℕ}
    (hle : first ≤ last) (hlt : last < total) (htotal : total < 2 ^ 63) :
    contentRangeParse digit s!"bytes {first}-{last}/{total}".toList =
      some ⟨first, last, total⟩ := by
  rw [contentRange_chars]
  set A := Nat.toDigits 10 first with hA
  set B := Nat.toDigits 10 last with hB
  set C := Nat.toDigits 10 total with hC
  have hdash : ∀ n, '-' ∉ Nat.toDigits 10 n := not_mem_toDigits (by decide)
  have hslash : ∀ n, '/' ∉ Nat.toDigits 10 n := not_mem_toDigits (by decide)
  obtain ⟨a, as, hcons⟩ : ∃ a as, A = a :: as := List.exists_cons_of_ne_nil Nat.toDigits_ne_nil
  have hstart : getDigitIndex ("bytes ".toList ++ (A ++ ('-' :: (B ++ ('/' :: C))))) = some 6 := by
    rw [hcons]
    have hchars : "bytes ".toList = ['b', 'y', 't', 'e', 's', ' '] := rfl
    have hword : ∀ d ∈ "bytes ".toList, (asciiDigit d).isSome = false := by
      intro d hd
      simp only [hchars, List.mem_cons, List.not_mem_nil, or_false] at hd
      rcases hd with rfl | rfl | rfl | rfl | rfl | rfl <;> rfl
    refine findIdx?_of_split hword ?_
    have hisDigit : a.isDigit := isDigit_toDigits first a (by rw [← hA, hcons]; simp)
    have hrange : 48 ≤ a.toNat ∧ a.toNat ≤ 57 := by
      simpa [Char.isDigit, UInt32.le_iff_toNat_le] using hisDigit
    rw [asciiDigit, if_pos hrange]
    rfl
  have hend : ("bytes ".toList ++ (A ++ ('-' :: (B ++ ('/' :: C))))).findIdx? (· = '-') =
      some (6 + A.length) := by
    have hbefore : '-' ∉ "bytes ".toList ++ A := by
      rw [List.mem_append, not_or]
      exact ⟨by decide, hdash first⟩
    have hfind := findIdx?_char (B ++ ('/' :: C)) hbefore
    rwa [List.append_assoc, List.length_append] at hfind
  have hslashAt : ("bytes ".toList ++ (A ++ ('-' :: (B ++ ('/' :: C))))).findIdx? (· = '/') =
      some (6 + A.length + 1 + B.length) := by
    have hbefore : '/' ∉ "bytes ".toList ++ (A ++ ('-' :: B)) := by
      simp only [List.mem_append, List.mem_cons, not_or]
      exact ⟨by decide, hslash first, by decide, hslash last⟩
    have hfind := findIdx?_char C hbefore
    have hlen : ("bytes ".toList ++ (A ++ ('-' :: B))).length = 6 + A.length + 1 + B.length := by
      simp only [List.length_append, List.length_cons]
      have hbytes : "bytes ".toList.length = 6 := rfl
      omega
    rw [hlen] at hfind
    simpa only [List.append_assoc, List.cons_append] using hfind
  have hsliceA : slice ("bytes ".toList ++ (A ++ ('-' :: (B ++ ('/' :: C))))) 6 (6 + A.length) =
      A :=
    slice_of_split "bytes ".toList A _
  have hsliceB : slice ("bytes ".toList ++ (A ++ ('-' :: (B ++ ('/' :: C))))) (6 + A.length + 1)
      (6 + A.length + 1 + B.length) = B := by
    have hslice := slice_of_split ("bytes ".toList ++ (A ++ ['-'])) B ('/' :: C)
    have hlen : ("bytes ".toList ++ (A ++ ['-'])).length = 6 + A.length + 1 := by
      simp only [List.length_append, List.length_singleton]
      have hbytes : "bytes ".toList.length = 6 := rfl
      omega
    rw [hlen] at hslice
    simpa only [List.append_assoc, List.cons_append, List.nil_append] using hslice
  have hdrop : ("bytes ".toList ++ (A ++ ('-' :: (B ++ ('/' :: C))))).drop
      (6 + A.length + 1 + B.length + 1) = C := by
    have hlen : ("bytes ".toList ++ (A ++ ('-' :: (B ++ ['/'])))).length =
        6 + A.length + 1 + B.length + 1 := by
      simp only [List.length_append, List.length_cons, List.length_nil]
      have hbytes : "bytes ".toList.length = 6 := rfl
      omega
    have hleft : (("bytes ".toList ++ (A ++ ('-' :: (B ++ ['/'])))) ++ C).drop
        ("bytes ".toList ++ (A ++ ('-' :: (B ++ ['/'])))).length = C := List.drop_left
    rw [hlen] at hleft
    simpa only [List.append_assoc, List.cons_append, List.nil_append] using hleft
  have hguard : 6 < 6 + A.length := by
    rw [hcons]
    simp
  simp only [contentRangeParse, hstart, hend, hslashAt, hsliceA, hsliceB, hdrop,
    Option.bind_eq_bind,
    Option.bind_some]
  rw [hA, hB, hC, parseLong_toDigits hdigit (by omega), parseLong_toDigits hdigit (by omega),
    parseLong_toDigits hdigit htotal]
  simp [guard, ← hA, hguard]

/-- The positions of the file that some response carries. -/
def received (rs : List (PartResponse file key)) : Set ℕ :=
  {i | ∃ r ∈ rs, r.first ≤ i ∧ i ≤ r.last}

def ReachesEnd (rs : List (PartResponse file key)) : Prop :=
  (∃ r ∈ rs.head?, r.first = 0) ∧ ∃ r ∈ rs, r.last + 1 = file.length

/-- The entry after the responses `rs`. Its file is a prefix of the download, with zeros in
the gaps, if the first response begins the file. -/
structure Parked (rs : List (PartResponse file key)) (v : PartContentValue) : Prop where
  head : ∃ r ∈ rs.head?, v.offset = r.first ∧ v.httpSession = r.session
  total : v.totalLength = file.length
  written : v.fileStorage.written = rs.map (·.session)
  length : v.offset = 0 → ∀ n, n < v.fileStorage.bytes.length ↔ ∃ r ∈ rs, n ≤ r.last
  content : v.offset = 0 → ∀ i ∈ received rs, v.fileStorage.bytes.getD i 0 = file.getD i 0

theorem body_length (r : PartResponse file key) :
    (slice file r.first (r.last + 1)).length = r.last + 1 - r.first := slice_length _ r.lt

theorem body_ne_nil (r : PartResponse file key) : slice file r.first (r.last + 1) ≠ [] := by
  intro h
  have hlen := body_length r
  have hle := r.le
  rw [h, List.length_nil] at hlen
  omega

theorem getD_body (r : PartResponse file key) {i : ℕ} (h : r.first ≤ i ∧ i ≤ r.last) :
    (slice file r.first (r.last + 1)).getD (i - r.first) 0 = file.getD i 0 := by
  have hlt : i - r.first < r.last + 1 - r.first := by omega
  have hi : r.first + (i - r.first) = i := by omega
  simp only [slice, List.getD_eq_getElem?_getD, List.getElem?_take, if_pos hlt, List.getElem?_drop,
    hi]

theorem parked_first (r : PartResponse file key) :
    Parked [r] ⟨r.session, ⟨if r.first = 0 then slice file r.first (r.last + 1) else
      writeAt (slice file r.first (r.last + 1)) r.first (slice file r.first (r.last + 1)),
        [r.session]⟩, file.length, r.first, r.now⟩ := by
  have hlen := body_length r
  constructor
  · exact ⟨r, rfl, rfl, rfl⟩
  · rfl
  · rfl
  · intro hfirst n
    have hfirst : r.first = 0 := hfirst
    simp only [hfirst, if_true, List.mem_singleton, exists_eq_left] at hlen ⊢
    omega
  · rintro hfirst i ⟨r', hr', hi⟩
    obtain rfl := List.mem_singleton.1 hr'
    have hfirst : r'.first = 0 := hfirst
    have hbody := getD_body r' hi
    rw [hfirst, Nat.sub_zero] at hbody
    simpa only [hfirst, if_true] using hbody

theorem Parked.write {rs : List (PartResponse file key)} {v : PartContentValue} (h : Parked rs v)
    (r : PartResponse file key) :
    Parked (rs ++ [r]) { v with
      lastTime := r.now
      fileStorage := ⟨writeAt v.fileStorage.bytes r.first (slice file r.first (r.last + 1)),
        v.fileStorage.written ++ [r.session]⟩ } := by
  obtain ⟨r₀, hr₀, hoffset, hsession⟩ := h.head
  have hlen := body_length r
  have hle := r.le
  constructor
  · refine ⟨r₀, ?_, hoffset, hsession⟩
    rw [List.head?_append, hr₀]
    rfl
  · exact h.total
  · simp [h.written]
  · intro hfirst n
    have hold := h.length hfirst n
    dsimp only
    rw [length_writeAt (body_ne_nil r), hlen]
    simp only [List.mem_append, List.mem_singleton, or_and_right, exists_or, exists_eq_left, ← hold]
    omega
  · rintro hfirst i ⟨r', hr', hi⟩
    dsimp only
    rw [getD_writeAt (body_ne_nil r), hlen]
    by_cases hin : r.first ≤ i ∧ i < r.first + (r.last + 1 - r.first)
    · rw [if_pos hin]
      exact getD_body r (by omega)
    · rw [if_neg hin]
      rcases List.mem_append.1 hr' with hr' | hr'
      · exact h.content hfirst i ⟨r', hr', hi⟩
      · obtain rfl := List.mem_singleton.1 hr'
        exact absurd hi (by omega)

theorem Parked.isComplete_iff {rs : List (PartResponse file key)} {v : PartContentValue}
    (h : Parked rs v) : v.isComplete ↔ ReachesEnd rs := by
  obtain ⟨r₀, hr₀, hoffset, -⟩ := h.head
  have hfirst : (∃ r ∈ rs.head?, r.first = 0) ↔ v.offset = 0 := by
    rw [hoffset]
    constructor
    · rintro ⟨r, hr, hzero⟩
      obtain rfl := Option.mem_unique hr hr₀
      exact hzero
    · exact fun hzero => ⟨r₀, hr₀, hzero⟩
  rw [ReachesEnd, hfirst, PartContentValue.isComplete, h.total]
  simp only [Bool.and_eq_true, decide_eq_true_eq, beq_iff_eq, Nat.cast_inj]
  rw [and_comm]
  refine and_congr_right fun hzero => ?_
  have hlength := h.length hzero
  have hpos : 0 < file.length := lt_of_le_of_lt (Nat.zero_le _) r₀.lt
  constructor
  · intro heq
    obtain ⟨r, hr, hle⟩ := (hlength (file.length - 1)).1 (by omega)
    have hlt := r.lt
    exact ⟨r, hr, by omega⟩
  · rintro ⟨r, hr, hlast⟩
    have hge := (hlength (file.length - 1)).2 ⟨r, hr, by omega⟩
    by_contra hne
    obtain ⟨r', -, hle⟩ := (hlength file.length).1 (by omega)
    have hlt := r'.lt
    omega

section Responses

variable (digit : Char → Option ℕ)

/-- What `doParse` returns for each of the responses. -/
def doParseAll : List (PartResponse file key) → PartContents → List (List Returned)
  | [], _ => []
  | r :: rs, t =>
    (doParse digit r.now r.session t).1 :: doParseAll rs (doParse digit r.now r.session t).2

/-- The table after the responses `rs` of a download that has not been returned. -/
def Pending (rs : List (PartResponse file key)) (t : PartContents) : Prop :=
  match rs with
  | [] => t.lookup key = none
  | _ :: _ => ∃ v, t.lookup key = some v ∧ Parked rs v

variable {digit}

theorem doParse_pending (hdigit : ∀ c : Char, c.toNat < 128 → digit c = asciiDigit c)
    (hfile : file.length < 2 ^ 63) {rs : List (PartResponse file key)} {t : PartContents}
    (h : Pending rs t) (r : PartResponse file key) :
    ∃ v, Parked (rs ++ [r]) v ∧ doParse digit r.now r.session t = returnComplete key v t := by
  have hrange : contentRangeParse digit r.session.contentRange =
      some ⟨r.first, r.last, file.length⟩ := by
    rw [r.range_eq]
    exact contentRangeParse_eq hdigit r.le r.lt hfile
  cases rs with
  | nil =>
    refine ⟨_, parked_first r, ?_⟩
    have hnone : t.lookup r.session.get206Key = none := by
      rw [r.key_eq]
      exact h
    simp only [doParse, hrange, hnone, createPCV, fileStorage, r.body_eq, Option.bind_eq_bind,
      Option.bind_some, r.key_eq]
    rfl
  | cons r₀ rs =>
    obtain ⟨v, hv, hparked⟩ := h
    refine ⟨_, hparked.write r, ?_⟩
    have hsome : t.lookup r.session.get206Key = some v := by
      rw [r.key_eq]
      exact hv
    simp only [doParse, hrange, hsome, FileStorage.write, r.body_eq, r.key_eq]

theorem doParse_step (hdigit : ∀ c : Char, c.toNat < 128 → digit c = asciiDigit c)
    (hfile : file.length < 2 ^ 63) {rs : List (PartResponse file key)} {t : PartContents}
    (h : Pending rs t) (r : PartResponse file key) :
    (¬ ReachesEnd (rs ++ [r]) → (doParse digit r.now r.session t).1 = [] ∧
      Pending (rs ++ [r]) (doParse digit r.now r.session t).2) ∧
    (ReachesEnd (rs ++ [r]) → ∃ v, Parked (rs ++ [r]) v ∧
      (doParse digit r.now r.session t).1 = [v.getFinalHttpSession] ∧
      Pending ([] : List (PartResponse file key)) (doParse digit r.now r.session t).2) := by
  obtain ⟨v, hv, hparse⟩ := doParse_pending hdigit hfile h r
  rw [hparse, returnComplete, ← hv.isComplete_iff]
  constructor
  · intro hno
    rw [if_neg hno]
    refine ⟨rfl, ?_⟩
    have hlookup : (t.insert key v).lookup key = some v := AList.lookup_insert t
    cases rs with
    | nil => exact ⟨v, hlookup, hv⟩
    | cons r₀ rs => exact ⟨v, hlookup, hv⟩
  · intro hyes
    rw [if_pos hyes]
    exact ⟨v, hv, rfl, AList.lookup_erase key t⟩

theorem ReachesEnd.append {rs : List (PartResponse file key)} (h : ReachesEnd rs)
    (more : List (PartResponse file key)) : ReachesEnd (rs ++ more) := by
  obtain ⟨⟨r, hr, hfirst⟩, r', hr', hlast⟩ := h
  refine ⟨⟨r, ?_, hfirst⟩, r', List.mem_append_left _ hr', hlast⟩
  rw [List.head?_append, hr]
  rfl

theorem doParseAll_quiet (hdigit : ∀ c : Char, c.toNat < 128 → digit c = asciiDigit c)
    (hfile : file.length < 2 ^ 63) {rs more : List (PartResponse file key)} {t : PartContents}
    (h : Pending rs t) (hno : ¬ ReachesEnd (rs ++ more)) :
    doParseAll digit more t = List.replicate more.length [] := by
  induction more generalizing rs t with
  | nil => rfl
  | cons r more ih =>
    have hassoc : rs ++ r :: more = (rs ++ [r]) ++ more := by simp
    rw [hassoc] at hno
    have hstep : ¬ ReachesEnd (rs ++ [r]) := fun hr => hno (hr.append more)
    obtain ⟨hout, hpending⟩ := (doParse_step hdigit hfile h r).1 hstep
    rw [doParseAll, hout, ih hpending hno]
    rfl

theorem doParseAll_returns (hdigit : ∀ c : Char, c.toNat < 128 → digit c = asciiDigit c)
    (hfile : file.length < 2 ^ 63) (after : List (PartResponse file key))
    {rs before : List (PartResponse file key)} {r : PartResponse file key} {t : PartContents}
    (h : Pending rs t)
    (hbefore : ¬ ReachesEnd (rs ++ before)) (hr : ReachesEnd (rs ++ before ++ [r])) :
    ∃ v t', Parked (rs ++ before ++ [r]) v ∧ Pending ([] : List (PartResponse file key)) t' ∧
      doParseAll digit (before ++ r :: after) t =
        List.replicate before.length [] ++ [v.getFinalHttpSession] ::
          doParseAll digit after t' := by
  induction before generalizing rs t with
  | nil =>
    rw [List.append_nil] at hr ⊢
    obtain ⟨v, hv, hout, hpending⟩ := (doParse_step hdigit hfile h r).2 hr
    refine ⟨v, _, hv, hpending, ?_⟩
    rw [List.nil_append, doParseAll, hout]
    rfl
  | cons r₀ before ih =>
    have hassoc : rs ++ r₀ :: before = (rs ++ [r₀]) ++ before := by simp
    rw [hassoc] at hbefore hr ⊢
    have hstep : ¬ ReachesEnd (rs ++ [r₀]) := fun hr => hbefore (hr.append before)
    obtain ⟨hout, hpending⟩ := (doParse_step hdigit hfile h r₀).1 hstep
    obtain ⟨v, t', hv, hpending', hall⟩ := ih hpending hbefore hr
    refine ⟨v, t', hv, hpending', ?_⟩
    rw [List.cons_append, doParseAll, hout, hall]
    rfl

end Responses

theorem received_mono {rs rs' : List (PartResponse file key)} (h : rs ⊆ rs') :
    received rs ⊆ received rs' := fun _ ⟨r, hr, hi⟩ => ⟨r, h hr, hi⟩

theorem received_subset (rs : List (PartResponse file key)) : received rs ⊆ Set.Iio file.length :=
  fun _ ⟨r, _, hi⟩ => lt_of_le_of_lt hi.2 r.lt

theorem received_eq_of_le {rs rs' : List (PartResponse file key)} (h : rs ⊆ rs')
    (hall : received rs = Set.Iio file.length) : received rs' = Set.Iio file.length :=
  Set.Subset.antisymm (received_subset rs') (hall ▸ received_mono h)

/-- With response `k`, and not before it, every byte of the file has come. -/
def FirstComplete (rs : List (PartResponse file key)) (k : ℕ) : Prop :=
  k < rs.length ∧ received (rs.take (k + 1)) = Set.Iio file.length ∧
    received (rs.take k) ≠ Set.Iio file.length

theorem exists_firstComplete (hpos : 0 < file.length) {rs : List (PartResponse file key)}
    (h : received rs = Set.Iio file.length) : ∃ k, FirstComplete rs k := by
  induction rs using List.reverseRecOn with
  | nil =>
    have hzero : (0 : ℕ) ∈ received ([] : List (PartResponse file key)) := by
      rw [h]
      exact hpos
    obtain ⟨r, hr, -⟩ := hzero
    simp at hr
  | append_singleton rs r ih =>
    by_cases hall : received rs = Set.Iio file.length
    · obtain ⟨k, hk, hyes, hno⟩ := ih hall
      refine ⟨k, by simp; omega, ?_, ?_⟩
      · rwa [List.take_append_of_le_length hk]
      · rwa [List.take_append_of_le_length hk.le]
    · refine ⟨rs.length, by simp, ?_, by simpa using hall⟩
      rw [List.take_of_length_le (by simp)]
      exact h

def mergedSession (file : List UInt8) (s : HTTPSession) (parts : List HTTPSession) : Returned where
  session :=
    { s with
      contentRange := s!"bytes {0}-{(file.length : ℤ) - 1}/{(file.length : ℤ)}".toList
      resPBytes := file.length
      resBody := .content file }
  parts := parts

theorem Parked.final_eq {rs : List (PartResponse file key)} {v : PartContentValue} (h : Parked rs v)
    (hend : ReachesEnd rs) (hall : received rs = Set.Iio file.length) :
    ∃ r ∈ rs.head?, v.getFinalHttpSession = mergedSession file r.session (rs.map (·.session)) := by
  obtain ⟨r, hr, -, hsession⟩ := h.head
  have hcomplete : v.fileStorage.bytes.length = file.length ∧ v.offset = 0 := by
    simpa [PartContentValue.isComplete, h.total] using h.isComplete_iff.2 hend
  obtain ⟨hlen, hoffset⟩ := hcomplete
  have hbytes : v.fileStorage.bytes = file := by
    refine eq_of_getD hlen fun i hi => h.content hoffset i ?_
    rw [hall]
    exact hlen ▸ hi
  refine ⟨r, hr, ?_⟩
  simp only [PartContentValue.getFinalHttpSession, PartContentValue.contentRangeMake, mergedSession,
    hbytes, hoffset, h.total, h.written, hsession]

/-- The merged session is returned with the first response after which the file is covered,
and nothing with any other response. -/
structure MergedExactly (digit : Char → Option ℕ) (rs : List (PartResponse file key))
    (t : PartContents) : Prop where
  complete : ∀ k, FirstComplete rs k → ∃ r ∈ rs.head?, (doParseAll digit rs t)[k]? =
    some [mergedSession file r.session ((rs.take (k + 1)).map (·.session))]
  otherwise : ∀ k < rs.length, ¬ FirstComplete rs k → (doParseAll digit rs t)[k]? = some []

/-- Either the parts never cover the file, and they do not both begin and end it; or they
begin it, leave no gap when they first reach its end, and do not begin and end it again
behind that. -/
def Mergeable (rs : List (PartResponse file key)) : Prop :=
  (¬ ReachesEnd rs ∧ received rs ≠ Set.Iio file.length) ∨
  ∃ before r after, rs = before ++ r :: after ∧ ¬ ReachesEnd before ∧
    ReachesEnd (before ++ [r]) ∧ received (before ++ [r]) = Set.Iio file.length ∧
    ¬ ReachesEnd after

theorem ReachesEnd.split {rs : List (PartResponse file key)} (h : ReachesEnd rs) :
    ∃ before r after, rs = before ++ r :: after ∧ ¬ ReachesEnd before ∧
      ReachesEnd (before ++ [r]) := by
  induction rs using List.reverseRecOn with
  | nil =>
    obtain ⟨-, r, hr, -⟩ := h
    simp at hr
  | append_singleton rs r ih =>
    by_cases hend : ReachesEnd rs
    · obtain ⟨before, r', after, rfl, hno, hyes⟩ := ih hend
      exact ⟨before, r', after ++ [r], by simp, hno, hyes⟩
    · exact ⟨rs, r, [], rfl, hend, h⟩

section Main

variable {digit : Char → Option ℕ} (hdigit : ∀ c : Char, c.toNat < 128 → digit c = asciiDigit c)
  (hfile : file.length < 2 ^ 63)

include hdigit hfile

theorem doParseAll_split (after : List (PartResponse file key))
    {before : List (PartResponse file key)} {r : PartResponse file key} {t : PartContents}
    (ht : t.lookup key = none) (hbefore : ¬ ReachesEnd before)
    (hr : ReachesEnd (before ++ [r])) :
    ∃ v t', Parked (before ++ [r]) v ∧ t'.lookup key = none ∧
      doParseAll digit (before ++ r :: after) t =
        List.replicate before.length [] ++ [v.getFinalHttpSession] ::
          doParseAll digit after t' := by
  have hstart : Pending ([] : List (PartResponse file key)) t := ht
  exact doParseAll_returns hdigit hfile after hstart hbefore hr

theorem doParseAll_none {rs : List (PartResponse file key)} {t : PartContents}
    (ht : t.lookup key = none) (hno : ¬ ReachesEnd rs) :
    doParseAll digit rs t = List.replicate rs.length [] := by
  have hstart : Pending ([] : List (PartResponse file key)) t := ht
  exact doParseAll_quiet hdigit hfile hstart hno

theorem quiet_of_mergedExactly {before after : List (PartResponse file key)}
    {r : PartResponse file key} {t : PartContents} (ht : t.lookup key = none)
    (hbefore : ¬ ReachesEnd before) (hr : ReachesEnd (before ++ [r]))
    (h : MergedExactly digit (before ++ r :: after) t) :
    received (before ++ [r]) = Set.Iio file.length ∧ ¬ ReachesEnd after := by
  obtain ⟨v, t', -, ht', hall⟩ := doParseAll_split hdigit hfile after ht hbefore hr
  have htake : (before ++ r :: after).take (before.length + 1) = before ++ [r] := by
    simp [List.take_append]
  have hcovered : received (before ++ [r]) = Set.Iio file.length := by
    by_contra hne
    have hnot : ¬ FirstComplete (before ++ r :: after) before.length := by
      rintro ⟨-, hyes, -⟩
      rw [htake] at hyes
      exact hne hyes
    have hout := h.otherwise before.length (by simp) hnot
    rw [hall, List.getElem?_append_right (by simp)] at hout
    simp at hout
  refine ⟨hcovered, fun hend => ?_⟩
  obtain ⟨before', r', after', rfl, hbefore', hr'⟩ := hend.split
  obtain ⟨v', t'', -, -, hall'⟩ := doParseAll_split hdigit hfile after' ht' hbefore' hr'
  have hnot : ¬ FirstComplete (before ++ r :: (before' ++ r' :: after'))
      (before.length + (1 + before'.length)) := by
    rintro ⟨-, -, hno⟩
    refine hno (received_eq_of_le ?_ hcovered)
    have hsub := List.take_subset_take_left (before ++ r :: (before' ++ r' :: after'))
      (show before.length + 1 ≤ before.length + (1 + before'.length) by omega)
    rwa [htake] at hsub
  have hout := h.otherwise _ (by simp; omega) hnot
  rw [hall, hall', List.getElem?_append_right (by simp)] at hout
  simp [Nat.add_comm 1] at hout

omit hdigit hfile in
theorem received_ne_of_not_reachesEnd (hpos : 0 < file.length)
    {before : List (PartResponse file key)} {r : PartResponse file key}
    (hbefore : ¬ ReachesEnd before) (hr : ReachesEnd (before ++ [r])) :
    received before ≠ Set.Iio file.length := by
  intro hall
  have hlast : file.length - 1 ∈ received before := by
    rw [hall]
    exact Nat.sub_lt hpos (by omega)
  obtain ⟨r', hr', -, hle⟩ := hlast
  have hlt := r'.lt
  obtain ⟨⟨r₀, hhead, hfirst⟩, -⟩ := hr
  cases before with
  | nil => simp at hr'
  | cons b bs => exact hbefore ⟨⟨r₀, hhead, hfirst⟩, r', hr', by omega⟩

theorem mergedExactly_of_covered {before after : List (PartResponse file key)}
    {r : PartResponse file key} {t : PartContents} (ht : t.lookup key = none)
    (hbefore : ¬ ReachesEnd before) (hr : ReachesEnd (before ++ [r]))
    (hcovered : received (before ++ [r]) = Set.Iio file.length) (hquiet : ¬ ReachesEnd after) :
    MergedExactly digit (before ++ r :: after) t := by
  have hpos : 0 < file.length := lt_of_le_of_lt (Nat.zero_le _) r.lt
  obtain ⟨v, t', hv, ht', hall⟩ := doParseAll_split hdigit hfile after ht hbefore hr
  rw [doParseAll_none hdigit hfile ht' hquiet] at hall
  have htake : (before ++ r :: after).take (before.length + 1) = before ++ [r] := by
    simp [List.take_append]
  have hfirst : FirstComplete (before ++ r :: after) before.length := by
    refine ⟨by simp, by rwa [htake], ?_⟩
    rw [List.take_left]
    exact received_ne_of_not_reachesEnd hpos hbefore hr
  have honly : ∀ k, FirstComplete (before ++ r :: after) k → k = before.length := by
    rintro k ⟨-, hyes, hno⟩
    by_contra hne
    rcases Nat.lt_or_gt_of_ne hne with hlt | hgt
    · refine received_ne_of_not_reachesEnd hpos hbefore hr (received_eq_of_le ?_ hyes)
      rw [List.take_append_of_le_length hlt]
      exact List.take_subset _ _
    · refine hno (received_eq_of_le ?_ hcovered)
      rw [← htake]
      exact List.take_subset_take_left _ hgt
  constructor
  · intro k hk
    obtain rfl := honly k hk
    obtain ⟨r₀, hr₀, hfinal⟩ := hv.final_eq hr hcovered
    refine ⟨r₀, ?_, ?_⟩
    · cases before with
      | nil => exact hr₀
      | cons b bs => exact hr₀
    · rw [hall, htake, List.getElem?_append_right (by simp), hfinal]
      simp
  · intro k hk hnot
    have hne : k ≠ before.length := fun h => hnot (h ▸ hfirst)
    rw [hall]
    rcases Nat.lt_or_gt_of_ne hne with hlt | hgt
    · rw [List.getElem?_append_left (by simpa using hlt), List.getElem?_replicate, if_pos hlt]
    · simp only [List.length_append, List.length_cons] at hk
      obtain ⟨j, rfl⟩ : ∃ j, k = before.length + (j + 1) := ⟨k - before.length - 1, by omega⟩
      rw [List.getElem?_append_right (by simp)]
      simp only [List.length_replicate, Nat.add_sub_cancel_left, List.getElem?_cons_succ,
        List.getElem?_replicate]
      rw [if_pos (by omega)]

/-- A download is merged as it should be exactly if its parts come in an order that begins
the file and leaves no gap before its end is reached. -/
theorem mergedExactly_iff (hpos : 0 < file.length) (rs : List (PartResponse file key))
    (t : PartContents) (ht : t.lookup key = none) :
    MergedExactly digit rs t ↔ Mergeable rs := by
  constructor
  · intro h
    by_cases hend : ReachesEnd rs
    · obtain ⟨before, r, after, rfl, hbefore, hr⟩ := hend.split
      obtain ⟨hcovered, hquiet⟩ := quiet_of_mergedExactly hdigit hfile ht hbefore hr h
      exact .inr ⟨before, r, after, rfl, hbefore, hr, hcovered, hquiet⟩
    · refine .inl ⟨hend, fun hall => ?_⟩
      obtain ⟨k, hk⟩ := exists_firstComplete hpos hall
      obtain ⟨r, -, hout⟩ := h.complete k hk
      rw [doParseAll_none hdigit hfile ht hend] at hout
      simp [List.getElem?_replicate] at hout
  · rintro (⟨hend, hne⟩ | ⟨before, r, after, rfl, hbefore, hr, hcovered, hquiet⟩)
    · refine ⟨fun k ⟨_, hyes, _⟩ => absurd (received_eq_of_le (List.take_subset _ _) hyes) hne, ?_⟩
      intro k hk _
      rw [doParseAll_none hdigit hfile ht hend, List.getElem?_replicate, if_pos hk]
    · exact mergedExactly_of_covered hdigit hfile ht hbefore hr hcovered hquiet

end Main

def fourBytes : List UInt8 := [1, 2, 3, 4]

def partSession (first last : ℕ) : HTTPSession where
  reqIP := 167772161
  host := "files"
  uri := "/four"
  status := 206
  contentRange := s!"bytes {first}-{last}/{fourBytes.length}".toList
  resBody := .content (slice fourBytes first (last + 1))
  resPBytes := last + 1 - first

def fourPart (first last : ℕ) (hle : first ≤ last) (hlt : last < fourBytes.length) :
    PartResponse fourBytes "167772161files/four" where
  session := partSession first last
  now := 0
  first := first
  last := last
  le := hle
  lt := hlt
  key_eq := rfl
  status_eq := rfl
  range_eq := rfl
  body_eq := rfl

def frontPart : PartResponse fourBytes "167772161files/four" := fourPart 0 1 (by decide) (by decide)
def backPart : PartResponse fourBytes "167772161files/four" := fourPart 2 3 (by decide) (by decide)

theorem received_parts {rs : List (PartResponse fourBytes "167772161files/four")}
    (hfront : frontPart ∈ rs) (hback : backPart ∈ rs) : received rs = Set.Iio fourBytes.length := by
  refine Set.Subset.antisymm (received_subset rs) fun i hi => ?_
  have hi : i < 4 := hi
  by_cases hlow : i ≤ 1
  · exact ⟨frontPart, hfront, Nat.zero_le _, hlow⟩
  · exact ⟨backPart, hback, not_le.1 hlow, Nat.lt_succ_iff.1 hi⟩

theorem front_back_merged : MergedExactly asciiDigit [frontPart, backPart] ∅ := by
  refine (mergedExactly_iff (fun _ _ => rfl) (by decide) (by decide) _ ∅ rfl).2
    (.inr ⟨[frontPart], backPart, [], rfl, ?_, ?_, received_parts (by simp) (by simp), ?_⟩)
  · rintro ⟨-, r, hr, hlast⟩
    obtain rfl := List.mem_singleton.1 hr
    exact absurd hlast (by decide)
  · exact ⟨⟨frontPart, rfl, rfl⟩, backPart, by simp, rfl⟩
  · rintro ⟨-, r, hr, -⟩
    simp at hr

/-- The two parts of a file in the other order cover it, and nothing is ever returned. -/
theorem back_front_not_merged :
    received [backPart, frontPart] = Set.Iio fourBytes.length ∧
      doParseAll asciiDigit [backPart, frontPart] ∅ = [[], []] ∧
      ¬ MergedExactly asciiDigit [backPart, frontPart] ∅ := by
  have hcovered : received [backPart, frontPart] = Set.Iio fourBytes.length :=
    received_parts (by simp) (by simp)
  have hend : ¬ ReachesEnd [backPart, frontPart] := by
    rintro ⟨⟨r, hr, hfirst⟩, -⟩
    obtain rfl := Option.mem_some_iff.1 hr
    exact absurd hfirst (by decide)
  have hquiet : doParseAll asciiDigit [backPart, frontPart] ∅ = [[], []] :=
    doParseAll_none (fun _ _ => rfl) (by decide) rfl hend
  refine ⟨hcovered, hquiet, fun h => ?_⟩
  obtain ⟨k, hk⟩ := exists_firstComplete (by decide) hcovered
  obtain ⟨r, -, hout⟩ := h.complete k hk
  have hlt : k < 2 := hk.1
  rw [hquiet] at hout
  interval_cases k
  · simp at hout
  · simp at hout

end CloudHands.PartContent
